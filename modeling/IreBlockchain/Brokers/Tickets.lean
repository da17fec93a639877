import IreBlockchain.Brokers.Desk

/-!
# Whose ticket is signed

A ticket names the token that is selected when its quote comes back, and a
signature takes the ticket that is on the page.
-/

namespace IreBlockchain.Brokers.Desk

open IreBlockchain.Foundation Script Rely

section Tickets

variable (skillFor : Nat → Option Skill)

def TicketOf (id : Nat) (ticket : Ticket) : Prop :=
  ticket.tokenId = some id ∧
    ∃ skill, skillFor id = some skill ∧ ticket.skillId = skill.skillId

/-- What the owner signs is about one token and its skill throughout. -/
def SignsOwn (order : Intent) : Prop :=
  ∃ skill, skillFor order.tokenId = some skill ∧
    order.skillId = skill.skillId ∧
    ∀ ticket, order.ticket = some ticket →
      ticket.tokenId = some order.tokenId ∧ ticket.skillId = skill.skillId

structure Coherent (console : Console) : Prop where
  signed : ∀ order ∈ console.signed, SignsOwn skillFor order
  stored : ∀ address id ticket,
    console.tickets.get (storageKey "ticket" address id) = some ticket →
    TicketOf skillFor id ticket

/-- The ticket on the page is for the token it was drawn for. -/
structure OwnTickets (console : Console) : Prop where
  coherent : Coherent skillFor console
  shown : ∀ ticket, console.lastTicket = some ticket →
    ∃ id, console.shownFor = some id ∧ TicketOf skillFor id ticket

def makesTicket (run : Run) (id : Nat) (console : Console) :
    Except Error Quote → Bool
  | .ok _ => true
  | .error _ => run ≠ .onPaper && console.quotes id ≠ []

/--
A reply that makes a ticket finds the token selected that the quote was asked
for, and that is to be signed if the desk was run to sign; and the reply that
lets `onLive` sign finds no ticket on the page or one drawn for the token.
-/
def selectedOnArrival : (q : Request) → Console → Except Error q.Reply → Bool
  | .fetchSkillQuote run id _, console, reply =>
      !makesTicket run id console reply ||
        console.id = some id &&
          match run with
          | .onLive wanted => wanted = id
          | _ => true
  | .page true (.ownerOf id), console, .ok (some own) =>
      !(sameAddr own (console.address.getD []) && console.isActivated id &&
          console.lastTicket.isSome) ||
        console.shownFor = some id
  | _, _, _ => true

def ownTickets : Rely interface where
  inv := OwnTickets skillFor
  allowed := fun q console reply => selectedOnArrival q console reply = true

instance (q : Request) (console : Console) (reply : Except Error q.Reply) :
    Decidable ((ownTickets skillFor).allowed q console reply) :=
  inferInstanceAs (Decidable (selectedOnArrival q console reply = true))

/-! ## What the updates of the page keep -/

variable {skillFor}

theorem storageKey_inj {kind : String} {address address' : Text}
    {id id' : Nat}
    (h : storageKey kind address id = storageKey kind address' id') :
    id = id' :=
  decimal_injective (append_cons_inj_of_not_mem (colon_not_mem_decimal id)
    (colon_not_mem_decimal id') h).2

theorem ownTickets_blank : OwnTickets skillFor .blank :=
  ⟨⟨by simp [Console.blank], by simp [Console.blank]⟩,
    by simp [Console.blank]⟩

theorem OwnTickets.frame {console console' : Console}
    (h : OwnTickets skillFor console)
    (htickets : console'.tickets = console.tickets)
    (hsigned : console'.signed = console.signed)
    (hlast : console'.lastTicket = console.lastTicket)
    (hshown : console'.shownFor = console.shownFor) :
    OwnTickets skillFor console' := by
  obtain ⟨⟨hsigns, hstored⟩, hpage⟩ := h
  refine ⟨⟨?_, ?_⟩, ?_⟩
  · rw [hsigned]
    exact hsigns
  · rw [htickets]
    exact hstored
  · rw [hlast, hshown]
    exact hpage

theorem OwnTickets.page {console : Console} (h : OwnTickets skillFor console)
    (page : Page) : OwnTickets skillFor { console with toPage := page } :=
  h.frame rfl rfl rfl rfl

theorem OwnTickets.reload {console : Console}
    (h : OwnTickets skillFor console) (page : Page) :
    OwnTickets skillFor
      { console with toPage := page, lastTicket := none, shownFor := none } := by
  refine ⟨⟨h.coherent.signed, h.coherent.stored⟩, ?_⟩
  intro ticket hticket
  cases hticket

theorem OwnTickets.addQuote {console : Console}
    (h : OwnTickets skillFor console) (id : Nat) (quote : Quote) :
    OwnTickets skillFor (console.addQuote id quote) :=
  h.frame rfl rfl rfl rfl

theorem OwnTickets.renderBrokerTicket {console : Console}
    (h : OwnTickets skillFor console) {id : Nat} {ticket : Option Ticket}
    (hticket : ∀ t, ticket = some t → TicketOf skillFor id t) :
    OwnTickets skillFor (console.renderBrokerTicket id ticket) :=
  ⟨⟨h.coherent.signed, h.coherent.stored⟩,
    fun t ht => ⟨id, rfl, hticket t ht⟩⟩

theorem OwnTickets.renderStored {console : Console}
    (h : OwnTickets skillFor console) (id : Nat) :
    OwnTickets skillFor
      (console.renderBrokerTicket id (console.storedTicket id)) :=
  h.renderBrokerTicket fun t ht => h.coherent.stored _ id t ht

theorem OwnTickets.writeTicket {console : Console}
    (h : OwnTickets skillFor console) {id : Nat} {ticket : Ticket}
    (hticket : TicketOf skillFor id ticket) :
    OwnTickets skillFor (console.writeTicket id ticket) := by
  refine ⟨⟨h.coherent.signed, ?_⟩, h.shown⟩
  intro address id' ticket' hget
  simp only [Console.writeTicket, KVStore.get_set] at hget
  split at hget
  next hkey =>
    cases Option.some.inj hget
    rw [storageKey_inj hkey]
    exact hticket
  next => exact h.coherent.stored address id' ticket' hget

theorem OwnTickets.makeTicket {console : Console}
    (h : OwnTickets skillFor console) {id : Nat} {skill : Skill}
    (hid : console.id = some id) (hskill : skillFor id = some skill)
    (quote : Quote) :
    OwnTickets skillFor (console.makeTicket id skill quote) := by
  have hticket : TicketOf skillFor id (console.buildBrokerTicket skill quote) :=
    ⟨hid, skill, hskill, rfl⟩
  apply (h.writeTicket hticket).renderBrokerTicket
  intro t ht
  cases Option.some.inj ht
  exact hticket

/-! ## The handlers -/

theorem quiet_ask (q : Request) : (ownTickets skillFor).Quiet (ask q) :=
  quiet_request (S := interface) q

def ReadyFor (run : Run) (console : Console) : Prop :=
  ∀ id, run = .onLive id →
    console.lastTicket = none ∨ console.shownFor = some id

theorem keeps_deskTicket {run : Run} {id : Nat} {skill : Skill}
    (hskill : skillFor id = some skill) {console : Console}
    (hinv : OwnTickets skillFor console)
    (hid : console.quotes id ≠ [] →
      console.id = some id ∧ ∀ wanted, run = .onLive wanted → wanted = id)
    {fail : Error → Console → Prop} :
    (ownTickets skillFor).Keeps (deskTicket id skill)
      (fun _ console => OwnTickets skillFor console ∧ ReadyFor run console)
      fail console := by
  rw [deskTicket, keeps_bind, keeps_state]
  split
  next => exact ⟨hinv.renderBrokerTicket (by simp), fun _ _ => Or.inl rfl⟩
  next last hlast =>
    have hquotes : console.quotes id ≠ [] := by
      intro hnil
      rw [hnil] at hlast
      cases hlast
    obtain ⟨hselected, hwanted⟩ := hid hquotes
    refine ⟨hinv.makeTicket hselected hskill last, ?_⟩
    intro wanted hrun
    rw [hwanted wanted hrun]
    exact Or.inr rfl

theorem keeps_deskPass {run : Run} (hrun : run ≠ .onPaper) {id : Nat}
    {skill : Skill} (hskill : skillFor id = some skill) {console : Console}
    {reply : Except Error Quote} (hinv : OwnTickets skillFor console)
    (hallowed : selectedOnArrival (.fetchSkillQuote run id skill) console
      reply = true) {fail : Error → Console → Prop} :
    (ownTickets skillFor).Keeps (deskPass id skill reply)
      (fun _ console => OwnTickets skillFor console ∧ ReadyFor run console)
      fail console := by
  have hselected : makesTicket run id console reply = true →
      console.id = some id ∧ ∀ wanted, run = .onLive wanted → wanted = id := by
    intro hmakes
    simp only [selectedOnArrival, hmakes, Bool.not_true, Bool.false_or,
      Bool.and_eq_true, decide_eq_true_eq] at hallowed
    refine ⟨hallowed.1, ?_⟩
    rintro wanted rfl
    exact of_decide_eq_true hallowed.2
  rw [deskPass, keeps_bind]
  cases reply with
  | ok quote =>
      obtain ⟨hid, hwanted⟩ := hselected rfl
      apply keeps_deskTicket hskill
      · exact (hinv.addQuote id quote).makeTicket hid hskill quote
      · exact fun _ => ⟨hid, hwanted⟩
  | error error =>
      apply keeps_deskTicket hskill hinv
      intro hquotes
      apply hselected
      simp [makesTicket, hrun, hquotes]

theorem keeps_runBrokerDesk {run : Run} (hrun : run ≠ .onPaper)
    {console : Console} (hinv : OwnTickets skillFor console)
    (hready : ReadyFor run console) {fail : Error → Console → Prop} :
    (ownTickets skillFor).Keeps (runBrokerDesk skillFor run)
      (fun _ console => OwnTickets skillFor console ∧ ReadyFor run console)
      fail console := by
  rw [runBrokerDesk, keeps_bind, keeps_state]
  split
  next => exact ⟨hinv, hready⟩
  next id hid =>
    split
    next => exact ⟨hinv, hready⟩
    next skill hskill =>
      refine ⟨hinv, ?_⟩
      intro console' reply hinv' hallowed
      exact keeps_deskPass hrun hskill hinv' hallowed

theorem quiet_onPaper : (ownTickets skillFor).Quiet (onPaper skillFor) := by
  intro console hinv
  rw [onPaper, keeps_bind, keeps_state]
  split
  next => exact hinv
  next id hid =>
    split
    next => exact hinv
    next skill hskill =>
      refine ⟨hinv, ?_⟩
      intro console' reply hinv' hallowed
      cases reply with
      | error error => exact hinv'
      | ok quote =>
          change selectedOnArrival (.fetchSkillQuote .onPaper id skill)
            console' (.ok quote) = true at hallowed
          simp only [selectedOnArrival, makesTicket, Bool.not_true,
            Bool.false_or, Bool.and_true, decide_eq_true_eq] at hallowed
          exact (hinv'.addQuote id quote).makeTicket hallowed hskill quote

theorem quiet_runBrokerDesk {run : Run} (hrun : run ≠ .onPaper)
    (hlive : ∀ id, run ≠ .onLive id) :
    (ownTickets skillFor).Quiet (runBrokerDesk skillFor run) := by
  intro console hinv
  apply (keeps_runBrokerDesk hrun hinv fun id heq => absurd heq (hlive id)).mono
  · exact fun _ _ h => h.1
  · exact fun _ _ h => h

theorem quiet_quoted (id : Nat) : (ownTickets skillFor).Quiet (quoted id) :=
  fun _ hinv => hinv

theorem quiet_interpretation {α : Type} (live : Bool)
    (script : Brokers.Code α) :
    (ownTickets skillFor).Quiet
      ((interpretation skillFor live).lift script) := by
  apply quiet_lift
  · intro page console hinv
    exact OwnTickets.page hinv page
  · intro q
    cases q with
    | desk id =>
        apply Quiet.attempt
        apply Quiet.bind
        · exact quiet_runBrokerDesk (by simp) (by simp)
        · intro _
          exact quiet_quoted id
    | _ => exact quiet_await fun reply => quiet_pure reply
  · intro callback console hinv
    exact hinv

/-! ## Signing -/

theorem signsOwn_buildSkillIntent {console : Console} {id : Nat}
    {skill : Skill} (hskill : skillFor id = some skill)
    (hinv : OwnTickets skillFor console)
    (hready : ReadyFor (.onLive id) console) :
    SignsOwn skillFor (console.buildSkillIntent skill id) := by
  have hown : ∀ ticket, (console.buildSkillIntent skill id).ticket =
      some ticket → TicketOf skillFor id ticket := by
    intro ticket hticket
    change console.lastTicket.or (console.storedTicket id) = some ticket
      at hticket
    cases hlast : console.lastTicket with
    | none =>
        rw [hlast, Option.none_or] at hticket
        exact hinv.coherent.stored _ id ticket hticket
    | some last =>
        rw [hlast, Option.some_or] at hticket
        cases Option.some.inj hticket
        obtain ⟨shown, hshown, hticketOf⟩ := hinv.shown _ hlast
        cases hready id rfl with
        | inl hnone =>
            rw [hnone] at hlast
            cases hlast
        | inr hid =>
            cases Option.some.inj (hshown.symm.trans hid)
            exact hticketOf
  refine ⟨skill, hskill, rfl, ?_⟩
  intro ticket hticket
  obtain ⟨htoken, skill', hskill', hid⟩ := hown ticket hticket
  cases Option.some.inj (hskill.symm.trans hskill')
  exact ⟨htoken, hid⟩

theorem OwnTickets.sign {console : Console} (h : OwnTickets skillFor console)
    {order : Intent} (horder : SignsOwn skillFor order) :
    OwnTickets skillFor
      { console with signed := order :: console.signed } := by
  refine ⟨⟨?_, h.coherent.stored⟩, h.shown⟩
  intro other hother
  cases List.mem_cons.mp hother with
  | inl heq => exact heq ▸ horder
  | inr hmem => exact h.coherent.signed other hmem

theorem quiet_personalSign {order : Intent}
    (horder : SignsOwn skillFor order) :
    (ownTickets skillFor).Quiet (personalSign skillFor order) := by
  apply quiet_state.bind
  intro console
  apply (quiet_interpretation true _).bind
  intro _
  apply (quiet_interpretation true _).bind
  intro _
  apply Quiet.bind
  · exact quiet_modify fun console hinv => OwnTickets.sign hinv horder
  · intro _
    apply quiet_state.bind
    intro console
    apply (quiet_ask (.personalSign console.address order)).handle
    intro _
    apply quiet_state.bind
    intro console
    exact quiet_ask (.personalSign console.address order)

theorem keeps_signTicket {console : Console} {id : Nat} {skill : Skill}
    (hskill : skillFor id = some skill) (hinv : OwnTickets skillFor console)
    (hready : ReadyFor (.onLive id) console) :
    (ownTickets skillFor).Keeps (signTicket skillFor id skill)
      (fun _ => OwnTickets skillFor) (fun _ => OwnTickets skillFor)
      console := by
  have hsign : ∀ console, OwnTickets skillFor console ∧
      ReadyFor (.onLive id) console →
      (ownTickets skillFor).Keeps (do
        let console ← state
        let _ ← personalSign skillFor (console.buildSkillIntent skill id))
        (fun _ => OwnTickets skillFor) (fun _ => OwnTickets skillFor)
        console := by
    intro console h
    rw [keeps_bind, keeps_state]
    have horder := signsOwn_buildSkillIntent hskill h.1 h.2
    apply ((quiet_personalSign horder).bind fun _ => quiet_pure ()) console
    exact h.1
  rw [signTicket, keeps_bind, keeps_state]
  dsimp only
  split
  next =>
    rw [keeps_bind]
    apply (keeps_runBrokerDesk (by simp) hinv hready).mono
    · exact fun _ console h => hsign console h
    · exact fun _ _ h => h
  next => exact hsign console ⟨hinv, hready⟩

theorem keeps_requireOwner {console : Console} (id : Nat)
    (hinv : OwnTickets skillFor console) :
    (ownTickets skillFor).Keeps (liftLive skillFor (requireOwner id))
      (fun _ console => OwnTickets skillFor console ∧
        (console.isActivated id = true → ReadyFor (.onLive id) console))
      (fun _ => OwnTickets skillFor) console := by
  rw [liftLive, requireOwner, keeps_lift_bind, keeps_lift_state,
    keeps_lift_bind, require]
  split
  next =>
    change (ownTickets skillFor).Keeps ((interpretation skillFor true).lift
      (Brokers.ask (.ownerOf id) >>= _)) _ _ console
    rw [keeps_lift_bind]
    refine ⟨hinv, ?_⟩
    intro console' reply hinv' hallowed
    cases reply with
    | error error => exact hinv'
    | ok own =>
        change (ownTickets skillFor).Keeps
          ((interpretation skillFor true).lift (state >>= _)) _ _ console'
        rw [keeps_lift_bind, keeps_lift_state]
        cases own with
        | none => exact hinv'
        | some own =>
            change (ownTickets skillFor).Keeps
              ((interpretation skillFor true).lift (ite _ _ _)) _ _ console'
            split
            next hsame =>
              refine ⟨hinv', ?_⟩
              intro hactivated wanted hwanted
              cases hwanted
              change selectedOnArrival (.page true (.ownerOf id)) console'
                (.ok (some own)) = true at hallowed
              cases hlast : console'.lastTicket with
              | none => exact Or.inl rfl
              | some ticket =>
                  have howner :
                      sameAddr own (console'.address.getD []) = true := hsame
                  rw [selectedOnArrival, howner, hactivated, hlast] at hallowed
                  exact Or.inr (by simpa using hallowed)
            next => exact hinv'
  next => exact hinv

theorem quiet_onLive : (ownTickets skillFor).Quiet (onLive skillFor) := by
  apply quiet_state.bind
  intro console
  split
  next => exact quiet_pure ()
  next id hid =>
    split
    next => exact quiet_pure ()
    next skill hskill =>
      apply (quiet_interpretation true connectedAddress).bind
      intro address
      split
      next => exact quiet_pure ()
      next =>
        intro console' hinv
        rw [keeps_bind]
        apply (keeps_requireOwner id hinv).mono
        · intro _ console'' ⟨hinv'', hready⟩
          rw [keeps_bind, keeps_state, keeps_bind, liftLive, require]
          split
          next hactivated =>
            exact keeps_signTicket hskill hinv'' (hready hactivated)
          next => exact hinv''
        · exact fun _ _ h => h

/-! ## Runs of the page -/

theorem quiet_renderStored (id : Nat) :
    (ownTickets skillFor).Quiet (renderStored id) :=
  quiet_modify fun _ hinv => OwnTickets.renderStored hinv id

theorem quiet_lifted {α : Type} (script : Brokers.Code α) :
    (ownTickets skillFor).Quiet (lift skillFor script) :=
  quiet_interpretation false script

theorem quiet_openConsole (id : Nat) :
    (ownTickets skillFor).Quiet (openConsole skillFor id) := by
  apply Quiet.bind
  · exact quiet_modify fun console hinv => OwnTickets.page hinv _
  · intro _
    apply (quiet_lifted refreshActivation).bind
    intro _
    apply (quiet_renderStored id).bind
    intro _
    apply quiet_state.bind
    intro console
    apply quiet_ite
    · apply (quiet_lifted (enterDesk id)).bind
      intro prev
      exact quiet_start _
    · exact quiet_pure ()

theorem quiet_route (id : Option Nat) :
    (ownTickets skillFor).Quiet (route skillFor id) := by
  cases id with
  | none => exact quiet_modify fun console hinv => OwnTickets.page hinv _
  | some id => exact quiet_openConsole id

theorem quiet_recoverActivationFromTx (rawHash : Text)
    (rawId : Option Text) :
    (ownTickets skillFor).Quiet
      (recoverActivationFromTx skillFor rawHash rawId) := by
  apply (quiet_lifted connectedAddress).bind
  intro address
  split
  next => exact quiet_pure ()
  next =>
    apply (quiet_lifted ensureChain).bind
    intro _
    apply (quiet_lifted _).bind
    intro _
    apply quiet_state.bind
    intro console
    split
    next => exact quiet_lifted _
    next id hid =>
      apply (quiet_lifted (requireOwner id)).bind
      intro _
      apply (quiet_lifted (recoverPayment _ id)).bind
      intro _
      exact quiet_renderStored id

theorem quiet_afterDesk (id : Nat) (prev : Option Nat) :
    (ownTickets skillFor).Quiet (afterDesk skillFor id prev) := by
  apply (quiet_quoted id).bind
  intro quoted
  apply (quiet_lifted (leaveDesk id prev (.ok quoted))).bind
  intro _
  exact quiet_lifted refreshActivation

theorem upheld : (ownTickets skillFor).Upheld (page skillFor) := by
  constructor
  · intro event
    cases event with
    | page event =>
        cases event with
        | load box id =>
            apply Quiet.bind
            · exact quiet_modify fun console hinv => OwnTickets.reload hinv _
            · intro _
              apply (quiet_route id).bind
              intro _
              exact (quiet_start _).bind fun _ => quiet_start _
        | navigate id => exact quiet_route id
        | recoverActivationFromTx rawHash rawId =>
            exact quiet_recoverActivationFromTx rawHash rawId
        | _ => exact quiet_lifted _
    | runBrokerDesk => exact quiet_runBrokerDesk (by simp) (by simp)
    | onPaper => exact quiet_onPaper
    | onLive => exact quiet_onLive
  · intro callback
    cases callback with
    | deskStarted id prev =>
        change (ownTickets skillFor).TaskSafe
          (Desk.callback skillFor (.deskStarted id prev))
        rw [Desk.callback]
        split
        next skill hskill =>
          intro console reply hinv hallowed
          change (ownTickets skillFor).Keeps (deskPass id skill reply >>=
            fun _ => afterDesk skillFor id prev) _ _ console
          rw [keeps_bind]
          apply (keeps_deskPass (by simp) hskill hinv hallowed).mono
          · exact fun _ console' h => quiet_afterDesk id prev console' h.1
          · exact fun _ _ h => h
        next => exact taskSafe_of_quiet fun _ => quiet_afterDesk id prev
    | _ => exact taskSafe_of_quiet fun reply => quiet_lifted _
  · intro console hinv
    exact OwnTickets.reload hinv _

/--
Whatever the order of desks, replies and signatures, every ticket is stored
under its own token and every intent is signed with a ticket of its token, if
no token is left for another while a quote or a signature is waited for.
-/
theorem run_signs_own_tickets (labels : List (Step interface Event))
    (hadmits : Guarded (page skillFor).step (ownTickets skillFor).Admits
      ⟨.blank, []⟩ labels) :
    Coherent skillFor
      (run (page skillFor).step ⟨.blank, []⟩ labels).state := by
  have hblank : OwnTickets skillFor .blank := ownTickets_blank
  have hfinal := upheld.run hblank hadmits
  exact hfinal.coherent

end Tickets

/-! ## Two tokens -/

def sampleSkill (id : Nat) : Skill where
  skillId := "CBK-S-".toList ++ decimal id
  name := "Market scan".toList
  desk := "Kraken public ticker".toList
  role := "Market scanner".toList
  action := "scan".toList
  pair := "ETHUSD".toList
  venue := "Kraken spot".toList
  timeframe := "1h".toList
  risk := "low".toList
  does := "Reads the public ticker.".toList

def sampleSkills (id : Nat) : Option Skill :=
  if 1 ≤ id ∧ id ≤ Config.collectionSize then some (sampleSkill id) else none

def deskAnswers : (q : Request) → Except Error q.Reply
  | .page _ q => aliceAnswers q
  | .fetchSkillQuote _ _ _ => .ok ⟨"1850.5".toList, "$1850.5".toList,
      "kraken-public-ticker:ETHUSD".toList, "usd".toList⟩
  | .personalSign _ _ => .ok "0x5161".toList
  | .turn => .ok ()

def answers (indices : List Nat) : List (Step interface Event) :=
  indices.map fun index => .deliver index deskAnswers

def activateOne : List (Step interface Event) :=
  [.fire (.page (.load true (some 1)))] ++ answers [1, 1] ++
    [.fire (.page (.onActivate true))] ++ answers [1, 1, 1, 1, 2, 2, 2, 1]

theorem run_signs_own_tickets_sample :
    let final := (run (page sampleSkills).step ⟨.blank, []⟩
      (activateOne ++ [.fire .onLive] ++ answers [1, 1])).state
    final.signed.length = 1 ∧ Coherent sampleSkills final := by
  have hadmits : Guarded (page sampleSkills).step
      (ownTickets sampleSkills).Admits ⟨.blank, []⟩
      (activateOne ++ [.fire .onLive] ++ answers [1, 1]) := by decide +kernel
  refine ⟨by decide +kernel, ?_⟩
  exact run_signs_own_tickets _ hadmits

/--
The desk of token 2 is run, the page goes back to token 1, the quote comes, and
the owner signs.
-/
def leftDeskRun : List (Step interface Event) :=
  activateOne ++ [.fire (.page (.navigate (some 2))), .fire .runBrokerDesk,
    .fire (.page (.navigate (some 1)))] ++ answers [1] ++ [.fire .onLive] ++
    answers [2, 2]

theorem ticket_of_other_skill_signed :
    let final := (run (page sampleSkills).step ⟨.blank, []⟩ leftDeskRun).state
    final.signed.map (fun order => (order.tokenId, order.skillId,
        order.ticket.map fun ticket => (ticket.tokenId, ticket.skillId))) =
      [(1, (sampleSkill 1).skillId, some (some 1, (sampleSkill 2).skillId))] ∧
    ¬ Coherent sampleSkills final := by
  refine ⟨by decide +kernel, ?_⟩
  intro h
  have hstored : ((run (page sampleSkills).step ⟨.blank, []⟩
      leftDeskRun).state.tickets.get (storageKey "ticket" alice 2)).map
        (·.tokenId) = some (some 1) := by decide +kernel
  obtain ⟨ticket, hticket, htoken⟩ := Option.map_eq_some_iff.mp hstored
  obtain ⟨hown, _⟩ := h.stored alice 2 ticket hticket
  rw [hown] at htoken
  exact absurd htoken (by decide)

end IreBlockchain.Brokers.Desk
