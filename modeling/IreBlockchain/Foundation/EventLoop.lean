import IreBlockchain.Foundation.Runs

/-!
# Event loops

A single-threaded program of handlers that read and write one state, give
control back while they await a reply, and start callbacks that await on their
own.  Between two awaits nothing else runs; at an await anything may.
-/

namespace IreBlockchain.Foundation

/-- What the handlers of a program share. -/
structure Interface where
  State : Type
  Request : Type
  Reply : Request → Type
  Callback : Type
  Error : Type

/-- The code of a handler.  `fork` starts a callback and goes on. -/
inductive Script (S : Interface) (α : Type) : Type
  | done (value : α)
  | throw (error : S.Error)
  | get (next : S.State → Script S α)
  | set (state : S.State) (next : Script S α)
  | await (request : S.Request)
      (next : Except S.Error (S.Reply request) → Script S α)
  | fork (callback : S.Callback) (next : Script S α)

namespace Script

variable {S : Interface} {α β : Type}

def bind : Script S α → (α → Script S β) → Script S β
  | done value, f => f value
  | throw error, _ => throw error
  | get next, f => get fun state => (next state).bind f
  | set state next, f => set state (next.bind f)
  | await request next, f => await request fun reply => (next reply).bind f
  | fork callback next, f => fork callback (next.bind f)

instance : Monad (Script S) where
  pure := done
  bind := bind

def handle : Script S α → (S.Error → Script S α) → Script S α
  | done value, _ => done value
  | throw error, h => h error
  | get next, h => get fun state => (next state).handle h
  | set state next, h => set state (next.handle h)
  | await request next, h => await request fun reply => (next reply).handle h
  | fork callback next, h => fork callback (next.handle h)

def state : Script S S.State := get done

def modify (f : S.State → S.State) : Script S Unit :=
  get fun state => set (f state) (done ())

def ofExcept : Except S.Error α → Script S α
  | .ok value => done value
  | .error error => throw error

def request (q : S.Request) : Script S (S.Reply q) :=
  await q ofExcept

def start (callback : S.Callback) : Script S Unit :=
  fork callback (done ())

end Script

structure Task (S : Interface) where
  request : S.Request
  resume : Except S.Error (S.Reply request) → Script S Unit

structure World (S : Interface) where
  state : S.State
  pending : List (Task S)

structure EventLoop (S : Interface) (Event : Type) where
  handler : Event → Script S Unit
  callback : S.Callback → Task S
  /-- What is left of the state when the program is closed. -/
  unload : S.State → S.State

/-- A reply is chosen by a function on requests, so that any task can get any. -/
inductive Step (S : Interface) (Event : Type)
  | fire (event : Event)
  | deliver (index : Nat)
      (answer : (q : S.Request) → Except S.Error (S.Reply q))
  | close

namespace EventLoop

variable {S : Interface} {Event : Type} (loop : EventLoop S Event)

/-- Run a script up to its next await: the state it leaves, the tasks it adds. -/
def segment : Script S Unit → S.State → S.State × List (Task S)
  | .done _, state => (state, [])
  | .throw _, state => (state, [])
  | .get next, state => segment (next state) state
  | .set state next, _ => segment next state
  | .await request next, state => (state, [⟨request, next⟩])
  | .fork callback next, state =>
      let (state', tasks) := segment next state
      (state', loop.callback callback :: tasks)

def resumeWith (script : Script S Unit) (state : S.State)
    (pending : List (Task S)) : World S :=
  let (state', tasks) := loop.segment script state
  ⟨state', pending ++ tasks⟩

def step (world : World S) : Step S Event → World S
  | .fire event =>
      loop.resumeWith (loop.handler event) world.state world.pending
  | .deliver index answer =>
      match world.pending[index]? with
      | some task =>
          loop.resumeWith (task.resume (answer task.request)) world.state
            (world.pending.eraseIdx index)
      | none => world
  | .close => ⟨loop.unload world.state, []⟩

def narrow {Event' : Type} (f : Event' → Event) : EventLoop S Event' where
  handler event := loop.handler (f event)
  callback := loop.callback
  unload := loop.unload

end EventLoop

def Step.map {S : Interface} {Event Event' : Type} (f : Event' → Event) :
    Step S Event' → Step S Event
  | .fire event => .fire (f event)
  | .deliver index answer => .deliver index answer
  | .close => .close

namespace EventLoop

variable {S : Interface} {Event Event' : Type} (loop : EventLoop S Event)
  (f : Event' → Event)

theorem segment_narrow (script : Script S Unit) (state : S.State) :
    (loop.narrow f).segment script state = loop.segment script state := by
  induction script generalizing state with
  | done value => rfl
  | throw error => rfl
  | get next ih => exact ih state state
  | set now next ih => exact ih now
  | await q next ih => rfl
  | fork callback next ih =>
      simp only [segment, ih]
      rfl

theorem step_narrow (world : World S) (label : Step S Event') :
    (loop.narrow f).step world label = loop.step world (label.map f) := by
  cases label with
  | fire event => simp only [step, resumeWith, segment_narrow]; rfl
  | deliver index answer =>
      simp only [step, resumeWith, segment_narrow]
      rfl
  | close => rfl

theorem run_narrow (world : World S) (labels : List (Step S Event')) :
    run (loop.narrow f).step world labels =
      run loop.step world (labels.map (Step.map f)) := by
  induction labels generalizing world with
  | nil => rfl
  | cons label labels ih =>
      rw [List.map_cons, run_cons, run_cons, ih, step_narrow]

end EventLoop

/-- What holds whenever the loop is idle, and which replies may come when. -/
structure Rely (S : Interface) where
  inv : S.State → Prop
  allowed : (q : S.Request) → S.State → Except S.Error (S.Reply q) → Prop

namespace Rely

variable {S : Interface} {Event α β : Type} (rely : Rely S)

/--
From `state`, the script restores the invariant at every await, may count on it
and on an allowed reply after the await, and ends in `post` or `fail`.
-/
def Keeps : Script S α → (α → S.State → Prop) →
    (S.Error → S.State → Prop) → S.State → Prop
  | .done value, post, _, state => post value state
  | .throw error, _, fail, state => fail error state
  | .get next, post, fail, state => Keeps (next state) post fail state
  | .set state next, post, fail, _ => Keeps next post fail state
  | .await q next, post, fail, state =>
      rely.inv state ∧ ∀ state' reply, rely.inv state' →
        rely.allowed q state' reply → Keeps (next reply) post fail state'
  | .fork _ next, post, fail, state => Keeps next post fail state

def Safe (script : Script S Unit) (state : S.State) : Prop :=
  rely.Keeps script (fun _ => rely.inv) (fun _ => rely.inv) state

def TaskSafe (task : Task S) : Prop :=
  ∀ state reply, rely.inv state → rely.allowed task.request state reply →
    rely.Safe (task.resume reply) state

def Good (world : World S) : Prop :=
  rely.inv world.state ∧ ∀ task ∈ world.pending, rely.TaskSafe task

def Admits (world : World S) : Step S Event → Prop
  | .deliver index answer => ∀ task ∈ world.pending[index]?,
      rely.allowed task.request world.state (answer task.request)
  | _ => True

instance decidableAdmits
    [∀ q state reply, Decidable (rely.allowed q state reply)]
    (world : World S) :
    (label : Step S Event) → Decidable (rely.Admits world label)
  | .fire _ => .isTrue trivial
  | .deliver index answer => inferInstanceAs
      (Decidable (∀ task ∈ world.pending[index]?,
        rely.allowed task.request world.state (answer task.request)))
  | .close => .isTrue trivial

/-- From every idle state, the script restores the invariant wherever it stops. -/
def Quiet (script : Script S α) : Prop :=
  ∀ state, rely.inv state →
    rely.Keeps script (fun _ => rely.inv) (fun _ => rely.inv) state

/-! ## Rules of the scripts -/

section Rules

variable {post : β → S.State → Prop} {fail : S.Error → S.State → Prop}

@[simp] theorem keeps_bind (script : Script S α) (f : α → Script S β)
    (state : S.State) :
    rely.Keeps (script >>= f) post fail state ↔
      rely.Keeps script (fun value => rely.Keeps (f value) post fail) fail
        state := by
  change rely.Keeps (script.bind f) post fail state ↔ _
  induction script generalizing state with
  | done value => rfl
  | throw error => rfl
  | get next ih => exact ih state state
  | set state' next ih => exact ih state'
  | await q next ih =>
      simp only [Script.bind, Keeps, ih]
  | fork callback next ih => exact ih state

@[simp] theorem keeps_handle (script : Script S β)
    (handler : S.Error → Script S β) (state : S.State) :
    rely.Keeps (script.handle handler) post fail state ↔
      rely.Keeps script post
        (fun error => rely.Keeps (handler error) post fail) state := by
  induction script generalizing state with
  | done value => rfl
  | throw error => rfl
  | get next ih => exact ih state state
  | set state' next ih => exact ih state'
  | await q next ih =>
      simp only [Script.handle, Keeps, ih]
  | fork callback next ih => exact ih state

@[simp] theorem keeps_pure (value : β) (state : S.State) :
    rely.Keeps (pure value) post fail state ↔ post value state := Iff.rfl

@[simp] theorem keeps_done (value : β) (state : S.State) :
    rely.Keeps (.done value) post fail state ↔ post value state := Iff.rfl

@[simp] theorem keeps_throw (error : S.Error) (state : S.State) :
    rely.Keeps (.throw error) post fail state ↔ fail error state := Iff.rfl

@[simp] theorem keeps_state {post : S.State → S.State → Prop}
    (state : S.State) :
    rely.Keeps .state post fail state ↔ post state state := Iff.rfl

@[simp] theorem keeps_modify {post : Unit → S.State → Prop}
    (f : S.State → S.State) (state : S.State) :
    rely.Keeps (.modify f) post fail state ↔ post () (f state) := Iff.rfl

@[simp] theorem keeps_start {post : Unit → S.State → Prop}
    (callback : S.Callback) (state : S.State) :
    rely.Keeps (.start callback) post fail state ↔ post () state := Iff.rfl

@[simp] theorem keeps_await (q : S.Request)
    (next : Except S.Error (S.Reply q) → Script S β) (state : S.State) :
    rely.Keeps (.await q next) post fail state ↔
      rely.inv state ∧ ∀ state' reply, rely.inv state' →
        rely.allowed q state' reply →
        rely.Keeps (next reply) post fail state' := Iff.rfl

@[simp] theorem keeps_ofExcept (value : Except S.Error β) (state : S.State) :
    rely.Keeps (.ofExcept value) post fail state ↔
      (∀ v, value = .ok v → post v state) ∧
        ∀ e, value = .error e → fail e state := by
  cases value <;> simp [Script.ofExcept]

variable {rely} in
theorem keeps_request {q : S.Request} {post : S.Reply q → S.State → Prop}
    {state : S.State} (hinv : rely.inv state)
    (hok : ∀ state' reply, rely.inv state' →
      rely.allowed q state' (.ok reply) → post reply state')
    (herror : ∀ error state', rely.inv state' → fail error state') :
    rely.Keeps (.request q) post fail state := by
  refine ⟨hinv, ?_⟩
  intro state' reply hinv' hallowed
  cases reply with
  | ok reply => exact hok state' reply hinv' hallowed
  | error error => exact herror error state' hinv'

variable {rely} in
theorem Keeps.mono {post post' : β → S.State → Prop}
    {fail fail' : S.Error → S.State → Prop} {script : Script S β}
    {state : S.State} (h : rely.Keeps script post fail state)
    (hpost : ∀ value state, post value state → post' value state)
    (hfail : ∀ error state, fail error state → fail' error state) :
    rely.Keeps script post' fail' state := by
  induction script generalizing state with
  | done value => exact hpost _ _ h
  | throw error => exact hfail _ _ h
  | get next ih => exact ih state h
  | set state' next ih => exact ih h
  | await q next ih =>
      refine ⟨h.1, ?_⟩
      intro state' reply hinv hallowed
      exact ih reply (h.2 state' reply hinv hallowed)
  | fork callback next ih => exact ih h

end Rules

/-! ## Scripts that keep the invariant throughout -/

section Quiet

variable {rely}

theorem Quiet.keeps {script : Script S β} (h : rely.Quiet script)
    {post : β → S.State → Prop} {fail : S.Error → S.State → Prop}
    {state : S.State} (hinv : rely.inv state)
    (hpost : ∀ value state, rely.inv state → post value state)
    (hfail : ∀ error state, rely.inv state → fail error state) :
    rely.Keeps script post fail state :=
  (h state hinv).mono hpost hfail

theorem Quiet.bind {script : Script S α} {f : α → Script S β}
    (h : rely.Quiet script) (hf : ∀ value, rely.Quiet (f value)) :
    rely.Quiet (script >>= f) := by
  intro state hinv
  rw [keeps_bind]
  apply h.keeps hinv
  · intro value state' hinv'
    exact hf value state' hinv'
  · intro error state' hinv'
    exact hinv'

theorem Quiet.handle {script : Script S β} {f : S.Error → Script S β}
    (h : rely.Quiet script) (hf : ∀ error, rely.Quiet (f error)) :
    rely.Quiet (script.handle f) := by
  intro state hinv
  rw [keeps_handle]
  apply h.keeps hinv
  · intro value state' hinv'
    exact hinv'
  · intro error state' hinv'
    exact hf error state' hinv'

theorem quiet_pure (value : β) : rely.Quiet (pure value) :=
  fun _ hinv => hinv

theorem quiet_throw (error : S.Error) :
    rely.Quiet (.throw error : Script S β) :=
  fun _ hinv => hinv

theorem quiet_state : rely.Quiet .state :=
  fun _ hinv => hinv

theorem quiet_start (callback : S.Callback) : rely.Quiet (.start callback) :=
  fun _ hinv => hinv

theorem quiet_ofExcept (value : Except S.Error β) :
    rely.Quiet (.ofExcept value) := by
  cases value with
  | ok value => exact quiet_pure value
  | error error => exact quiet_throw error

theorem quiet_ite {p : Prop} [Decidable p] {a b : Script S β}
    (ha : rely.Quiet a) (hb : rely.Quiet b) :
    rely.Quiet (if p then a else b) := by
  split
  · exact ha
  · exact hb

theorem quiet_modify {f : S.State → S.State}
    (h : ∀ state, rely.inv state → rely.inv (f state)) :
    rely.Quiet (.modify f) := h

theorem quiet_await {q : S.Request}
    {next : Except S.Error (S.Reply q) → Script S β}
    (h : ∀ reply, rely.Quiet (next reply)) : rely.Quiet (.await q next) :=
  fun _ hinv => ⟨hinv, fun state' reply hinv' _ => h reply state' hinv'⟩

theorem taskSafe_of_quiet {task : Task S}
    (h : ∀ reply, rely.Quiet (task.resume reply)) : rely.TaskSafe task :=
  fun state reply hinv _ => h reply state hinv

theorem quiet_request (q : S.Request) : rely.Quiet (.request q) :=
  quiet_await quiet_ofExcept

end Quiet

/-! ## Runs -/

variable (loop : EventLoop S Event)

structure Upheld : Prop where
  handler : ∀ event, rely.Quiet (loop.handler event)
  callback : ∀ callback, rely.TaskSafe (loop.callback callback)
  unload : ∀ state, rely.inv state → rely.inv (loop.unload state)

variable {rely loop}

theorem Upheld.segment (h : rely.Upheld loop) {script : Script S Unit}
    {state : S.State} (hsafe : rely.Safe script state) :
    rely.inv (loop.segment script state).1 ∧
      ∀ task ∈ (loop.segment script state).2, rely.TaskSafe task := by
  induction script generalizing state with
  | done value => exact ⟨hsafe, by simp [EventLoop.segment]⟩
  | throw error => exact ⟨hsafe, by simp [EventLoop.segment]⟩
  | get next ih => exact ih state hsafe
  | set state next ih => exact ih hsafe
  | await q next ih =>
      refine ⟨hsafe.1, ?_⟩
      intro task htask
      rw [List.mem_singleton.mp htask]
      exact hsafe.2
  | fork callback next ih =>
      obtain ⟨hinv, htasks⟩ := ih hsafe
      refine ⟨hinv, ?_⟩
      intro task htask
      cases List.mem_cons.mp htask with
      | inl heq => exact heq ▸ h.callback callback
      | inr hmem => exact htasks task hmem

theorem Upheld.resumeWith (h : rely.Upheld loop) {script : Script S Unit}
    {state : S.State} {pending : List (Task S)}
    (hsafe : rely.Safe script state)
    (hpending : ∀ task ∈ pending, rely.TaskSafe task) :
    rely.Good (loop.resumeWith script state pending) := by
  obtain ⟨hinv, htasks⟩ := h.segment hsafe
  refine ⟨hinv, ?_⟩
  intro task htask
  cases List.mem_append.mp htask with
  | inl hmem => exact hpending task hmem
  | inr hmem => exact htasks task hmem

theorem Upheld.step (h : rely.Upheld loop) {world : World S}
    (hgood : rely.Good world) (label : Step S Event)
    (hadmits : rely.Admits world label) :
    rely.Good (loop.step world label) := by
  cases label with
  | fire event =>
      exact h.resumeWith (h.handler event _ hgood.1) hgood.2
  | deliver index answer =>
      simp only [EventLoop.step]
      split
      next task htask =>
        have hmem : task ∈ world.pending := List.mem_of_getElem? htask
        apply h.resumeWith
        · exact hgood.2 task hmem _ _ hgood.1 (hadmits task htask)
        · intro other hother
          exact hgood.2 other (List.mem_of_mem_eraseIdx hother)
      next => exact hgood
  | close => exact ⟨h.unload _ hgood.1, by simp [EventLoop.step]⟩

/--
The invariant holds after every run whose replies are allowed, however they
interleave with the events.
-/
theorem Upheld.run (h : rely.Upheld loop) {state : S.State}
    (hinit : rely.inv state) {labels : List (Step S Event)}
    (hadmits : Guarded loop.step rely.Admits ⟨state, []⟩ labels) :
    rely.inv (run loop.step ⟨state, []⟩ labels).state := by
  have hstart : rely.Good ⟨state, []⟩ := ⟨hinit, by simp⟩
  have hstep : ∀ world label, rely.Good world → rely.Admits world label →
      rely.Good (loop.step world label) :=
    fun _ label hgood => h.step hgood label
  have hgood : rely.Good (Foundation.run loop.step ⟨state, []⟩ labels) :=
    hadmits.invariant hstep hstart
  exact hgood.1

theorem admits_map {Event' : Type} (f : Event' → Event) (world : World S)
    (label : Step S Event') :
    rely.Admits world (label.map f) ↔ rely.Admits world label := by
  cases label <;> rfl

theorem Upheld.run_narrow {Event' : Type} {f : Event' → Event}
    (h : rely.Upheld (loop.narrow f)) {state : S.State}
    (hinit : rely.inv state) {labels : List (Step S Event')}
    (hadmits : Guarded loop.step rely.Admits ⟨state, []⟩
      (labels.map (Step.map f))) :
    rely.inv
      (Foundation.run loop.step ⟨state, []⟩ (labels.map (Step.map f))).state := by
  rw [← EventLoop.run_narrow]
  refine h.run hinit ?_
  generalize (⟨state, []⟩ : World S) = world at hadmits ⊢
  induction labels generalizing world with
  | nil => trivial
  | cons label labels ih =>
      obtain ⟨hlabel, hrest⟩ := hadmits
      rw [← EventLoop.step_narrow] at hrest
      exact ⟨(admits_map f world label).mp hlabel, ih _ hrest⟩

end Rely

end IreBlockchain.Foundation
