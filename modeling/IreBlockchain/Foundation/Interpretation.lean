import IreBlockchain.Foundation.EventLoop

/-!
# Scripts inside a larger program

A script over the state of one program runs inside a program with more state,
which may carry out some of its requests by scripts of its own.
-/

namespace IreBlockchain.Foundation

namespace Script

variable {S : Interface} {α β γ : Type}

theorem bind_assoc (script : Script S α) (f : α → Script S β)
    (g : β → Script S γ) :
    (script.bind f).bind g = script.bind fun value => (f value).bind g := by
  induction script with
  | done value => rfl
  | throw error => rfl
  | get next ih => exact congrArg get (funext ih)
  | set state next ih => exact congrArg (set state) ih
  | await q next ih => exact congrArg (await q) (funext ih)
  | fork callback next ih => exact congrArg (fork callback) ih

def attempt : Script S α → Script S (Except S.Error α)
  | done value => done (.ok value)
  | throw error => done (.error error)
  | get next => get fun state => (next state).attempt
  | set state next => set state next.attempt
  | await request next => await request fun reply => (next reply).attempt
  | fork callback next => fork callback next.attempt

end Script

/-- How a program `T` carries out what a program `S` asks for. -/
structure Interpretation (S T : Interface) where
  read : T.State → S.State
  write : S.State → T.State → T.State
  request : (q : S.Request) → Script T (Except S.Error (S.Reply q))
  fork : S.Callback → Script T Unit
  error : S.Error → T.Error

namespace Interpretation

variable {S T : Interface} {α β : Type} (I : Interpretation S T)

def lift : Script S α → Script T α
  | .done value => .done value
  | .throw error => .throw (I.error error)
  | .get next => .get fun state => lift (next (I.read state))
  | .set state next => .get fun inner => .set (I.write state inner) (lift next)
  | .await q next => (I.request q).bind fun reply => lift (next reply)
  | .fork callback next => (I.fork callback).bind fun _ => lift next

theorem lift_bind (script : Script S α) (f : α → Script S β) :
    I.lift (script >>= f) = I.lift script >>= fun value => I.lift (f value) := by
  change I.lift (script.bind f) = (I.lift script).bind _
  induction script with
  | done value => rfl
  | throw error => rfl
  | get next ih =>
      exact congrArg Script.get (funext fun state => ih (I.read state))
  | set outer next ih =>
      apply congrArg Script.get
      funext state
      exact congrArg (Script.set (I.write outer state)) ih
  | await q next ih =>
      simp only [Script.bind, lift, Script.bind_assoc, ih]
  | fork callback next ih =>
      simp only [Script.bind, lift, Script.bind_assoc, ih]

end Interpretation

namespace Rely

variable {S T : Interface} {α β : Type} {rely : Rely T}

@[simp] theorem keeps_lift_bind {I : Interpretation S T}
    (script : Script S α) (f : α → Script S β) {post : β → T.State → Prop}
    {fail : T.Error → T.State → Prop} (state : T.State) :
    rely.Keeps (I.lift (script >>= f)) post fail state ↔
      rely.Keeps (I.lift script)
        (fun value => rely.Keeps (I.lift (f value)) post fail) fail state := by
  rw [Interpretation.lift_bind, keeps_bind]

@[simp] theorem keeps_lift_state {I : Interpretation S T}
    {post : S.State → T.State → Prop} {fail : T.Error → T.State → Prop}
    (state : T.State) :
    rely.Keeps (I.lift .state) post fail state ↔ post (I.read state) state :=
  Iff.rfl

theorem Quiet.attempt {script : Script T α} (h : rely.Quiet script) :
    rely.Quiet script.attempt := by
  intro state hinv
  have hkeeps := h state hinv
  clear hinv h
  induction script generalizing state with
  | done value => exact hkeeps
  | throw error => exact hkeeps
  | get next ih => exact ih state state hkeeps
  | set state' next ih => exact ih state' hkeeps
  | await q next ih =>
      refine ⟨hkeeps.1, ?_⟩
      intro state' reply hinv' hallowed
      exact ih reply state' (hkeeps.2 state' reply hinv' hallowed)
  | fork callback next ih => exact ih state hkeeps

/--
A script of `S` keeps an invariant of `T` that its writes, its requests and its
callbacks keep.
-/
theorem quiet_lift {I : Interpretation S T}
    (hwrite : ∀ outer state, rely.inv state → rely.inv (I.write outer state))
    (hrequest : ∀ q, rely.Quiet (I.request q))
    (hfork : ∀ callback, rely.Quiet (I.fork callback)) (script : Script S α) :
    rely.Quiet (I.lift script) := by
  induction script with
  | done value => exact quiet_pure value
  | throw error => exact quiet_throw _
  | get next ih =>
      intro state hinv
      exact ih (I.read state) state hinv
  | set outer next ih =>
      intro state hinv
      exact ih (I.write outer state) (hwrite outer state hinv)
  | await q next ih => exact (hrequest q).bind ih
  | fork callback next ih => exact (hfork callback).bind fun _ => ih

end Rely

end IreBlockchain.Foundation
