import Jayess.Runtime.Worker

/-!
# Callbacks of workers

A post to the parent sends its message over the channel and then calls the callbacks that the parent
has registered, one after the other on the goroutine of the handler.
-/

namespace Jayess.Runtime

/-- How far the post of the handler has come after its send: `dispatch` copies the callbacks under the lock and
then calls them in their order. A callback that panics ends the handler. -/
inductive Dispatch (Message : Type) where
  | idle
  | sent (message : Message)
  | calling (message : Message) (next count : Nat)
  | panicked
deriving DecidableEq, Repr

/-- A worker with, for each registered callback, the messages it was called with, and the messages of the posts
to the parent that returned nil. -/
structure CallbackWorker (Message : Type) where
  worker : Worker Message
  calls : List (List Message)
  dispatch : Dispatch Message
  completed : List Message
deriving DecidableEq, Repr

inductive CallbackAction (Message : Type) where
  | register
  | method (action : Action Message)
  | copy
  | callback
  | panic
  | complete
deriving DecidableEq, Repr

/-- The steps of the goroutine that is in `dispatch` after a send. -/
def Action.ofHandler {Message : Type} : Action Message → Bool
  | .post party _ | .refuse party _ | .send party _ | .abandon party _ => party = .handler
  | .call party | .take party _ | .report party => party = .handler
  | .close => false
  | .finish => true

/-- A post to the parent that finds the worker open. -/
def CallbackAction.posts {Message : Type} : CallbackAction Message → Bool
  | .method (.post .handler _) => true
  | _ => false

variable {Message : Type}

namespace CallbackWorker

def new : CallbackWorker Message := ⟨.new, [], .idle, []⟩

/-- The callback at an index is called. -/
def call (state : CallbackWorker Message) (next : Nat) (message : Message) : CallbackWorker Message :=
  { state with calls := state.calls.modify next (· ++ [message]) }

end CallbackWorker

inductive CallbackStep : CallbackWorker Message → CallbackAction Message → CallbackWorker Message → Prop where
  /-- `OnMessage` with a handler. -/
  | register {state : CallbackWorker Message} :
      CallbackStep state .register { state with calls := state.calls ++ [[]] }
  | method {state : CallbackWorker Message} {next : Worker Message} {action : Action Message}
      (hstep : Step state.worker action next) (hfree : action.ofHandler = true → state.dispatch = .idle)
      (hother : ∀ message, action ≠ .send .handler message) :
      CallbackStep state (.method action) { state with worker := next }
  | send {state : CallbackWorker Message} {next : Worker Message} {message : Message}
      (hstep : Step state.worker (.send .handler message) next) (hfree : state.dispatch = .idle) :
      CallbackStep state (.method (.send .handler message))
        { state with worker := next, dispatch := .sent message }
  | copy {state : CallbackWorker Message} {message : Message} (hsent : state.dispatch = .sent message) :
      CallbackStep state .copy { state with dispatch := .calling message 0 state.calls.length }
  | callback {state : CallbackWorker Message} {message : Message} {next count : Nat}
      (hcalling : state.dispatch = .calling message next count) (hmore : next < count) :
      CallbackStep state .callback
        { state.call next message with dispatch := .calling message (next + 1) count }
  /-- `run` recovers the panic of a callback. -/
  | panic {state : CallbackWorker Message} {message : Message} {next count : Nat}
      (hcalling : state.dispatch = .calling message next count) (hmore : next < count) :
      CallbackStep state .panic
        { state.call next message with
          worker := state.worker.setThread .handler .finished, dispatch := .panicked }
  /-- All callbacks were called, and the post returns nil. -/
  | complete {state : CallbackWorker Message} {message : Message} {count : Nat}
      (hcalling : state.dispatch = .calling message count count) :
      CallbackStep state .complete
        { state with dispatch := .idle, completed := state.completed ++ [message] }

inductive CallbackRuns : CallbackWorker Message → List (CallbackAction Message × CallbackWorker Message) →
    CallbackWorker Message → Prop where
  | nil {state : CallbackWorker Message} : CallbackRuns state [] state
  | cons {state next last : CallbackWorker Message} {action : CallbackAction Message}
      {rest : List (CallbackAction Message × CallbackWorker Message)} (hstep : CallbackStep state action next)
      (hrest : CallbackRuns next rest last) : CallbackRuns state ((action, next) :: rest) last

/-- The parent registers its callbacks before the first post and never receives. -/
structure CallbacksOnly (run : List (CallbackAction Message × CallbackWorker Message)) : Prop where
  first : run.Pairwise fun earlier later => earlier.1.posts = true → later.1 ≠ .register
  untaken : ∀ reached ∈ run, reached.1 ≠ .method (.call .parent)

namespace CallbackWorker

def underWay (state : CallbackWorker Message) : Option Message :=
  match state.dispatch, state.worker.handler with
  | .sent message, _ => some message
  | .calling message _ _, _ => some message
  | .idle, .posting message => some message
  | _, _ => none

def CanComplete (state : CallbackWorker Message) (message : Message) : Prop :=
  ∃ run last, CallbackRuns state run last ∧
    (∀ reached ∈ run, reached.1 ≠ .method .close ∧ reached.1 ≠ .method (.call .parent)) ∧
    last.completed = state.completed ++ [message]

/-- A post that is under way can complete, and after it each callback was called with the messages of the posts
that returned, once each and in their order. -/
structure Answers (state : CallbackWorker Message) : Prop where
  completes : ∀ message, state.underWay = some message → state.CanComplete message
  called : state.dispatch = .idle →
    state.completed = state.worker.outbox.posted ∧ ∀ calls ∈ state.calls, calls = state.completed

end CallbackWorker

/-! ## The worker in its steps -/

theorem CallbackStep.worker {state next : CallbackWorker Message} {action : CallbackAction Message}
    (hstep : CallbackStep state action next) (hidle : state.dispatch ≠ .idle → state.worker.handler = .idle) :
    next.worker = state.worker ∨ ∃ action, Step state.worker action next.worker := by
  cases hstep with
  | register | copy | callback | complete => exact .inl rfl
  | method hstep => exact .inr ⟨_, hstep⟩
  | send hstep => exact .inr ⟨_, hstep⟩
  | panic hcalling =>
      refine .inr ⟨.finish, .finish (hidle fun hdispatch => ?_)⟩
      rw [hcalling] at hdispatch
      cases hdispatch

theorem CallbackStep.opened {state next : CallbackWorker Message} {action : CallbackAction Message}
    (hstep : CallbackStep state action next) (hposts : action.posts = true) : next.worker.done = false := by
  cases hstep with
  | register | copy | callback | panic | complete | send => cases hposts
  | method hstep =>
      cases hstep with
      | @post party _ _ hopen => cases party <;> exact hopen
      | refuse | send | abandon | call | take | report | close | finish => cases hposts

def Thread.pending : Thread Message → Nat
  | .posting _ => 1
  | _ => 0

def Worker.begun (worker : Worker Message) : Nat := worker.outbox.posted.length + worker.handler.pending

section Step

variable {worker next : Worker Message} {action : Action Message}

theorem Step.begun (hstep : Step worker action next) :
    next.begun = worker.begun + (if (CallbackAction.method action).posts then 1 else 0) ∨
      worker.done = true ∧ next.begun ≤ worker.begun := by
  cases hstep with
  | @post party message hidle =>
      cases party with
      | parent => exact .inl rfl
      | handler =>
          have hpending : worker.handler.pending = 0 := congrArg Thread.pending hidle
          left
          rw [Worker.begun, Worker.begun, hpending]
          rfl
  | @send party message hposting =>
      cases party with
      | parent => exact .inl rfl
      | handler =>
          have hpending : worker.handler.pending = 1 := congrArg Thread.pending hposting
          left
          rw [Worker.begun, Worker.begun, hpending]
          exact List.length_append
  | @abandon party message _ hclosed =>
      cases party with
      | parent => exact .inl rfl
      | handler => exact .inr ⟨hclosed, Nat.add_le_add_left (Nat.zero_le _) _⟩
  | @call party hidle | @take party _ _ hidle | @report party hidle =>
      cases party with
      | parent => exact .inl rfl
      | handler =>
          have hpending : worker.handler.pending = 0 := congrArg Thread.pending hidle
          left
          rw [Worker.begun, Worker.begun, hpending]
          rfl
  | refuse | close => exact .inl rfl
  | finish hidle =>
      have hpending : worker.handler.pending = 0 := congrArg Thread.pending hidle
      left
      rw [Worker.begun, Worker.begun, hpending]
      rfl

theorem Step.closed (hstep : Step worker action next) (hclosed : worker.done = true) : next.done = true := by
  cases hstep with
  | @post party | @send party | @abandon party | @call party | @take party | @report party =>
      cases party <;> exact hclosed
  | refuse | finish => exact hclosed
  | close => rfl

theorem Step.posted (hstep : Step worker action next) (hother : ∀ message, action ≠ .send .handler message) :
    next.outbox.posted = worker.outbox.posted := by
  cases hstep with
  | @send party message =>
      cases party with
      | parent => rfl
      | handler => exact absurd rfl (hother message)
  | @post party | @abandon party | @call party | @take party | @report party => cases party <;> rfl
  | refuse | close | finish => rfl

theorem Step.handler_eq (hstep : Step worker action next) (hfree : action.ofHandler = false) :
    next.handler = worker.handler := by
  cases hstep with
  | @post party | @send party | @abandon party | @call party | @take party | @report party =>
      cases party with
      | parent => rfl
      | handler => cases hfree
  | refuse | close => rfl
  | finish => cases hfree

theorem Step.untaken (hstep : Step worker action next) (hcall : action ≠ .call .parent)
    (hsilent : worker.parent ≠ .receiving) :
    next.parent ≠ .receiving ∧ next.outbox.returned = worker.outbox.returned := by
  cases hstep with
  | @post party | @send party | @abandon party =>
      cases party with
      | parent => exact ⟨nofun, rfl⟩
      | handler => exact ⟨hsilent, rfl⟩
  | @call party =>
      cases party with
      | parent => exact absurd rfl hcall
      | handler => exact ⟨hsilent, rfl⟩
  | @take party _ _ hreceiving | @report party hreceiving =>
      cases party with
      | parent => exact absurd hreceiving hsilent
      | handler => exact ⟨hsilent, rfl⟩
  | refuse | close | finish => exact ⟨hsilent, rfl⟩

theorem Step.room (hstep : Step worker action next) (hroom : worker.outbox.queue.length ≤ Channel.capacity) :
    next.outbox.queue.length ≤ Channel.capacity := by
  cases hstep with
  | @send party message _ hless =>
      cases party with
      | parent => exact hroom
      | handler =>
          have hlength : (worker.outbox.queue ++ [message]).length ≤ Channel.capacity := by
            rw [List.length_append]
            exact hless
          exact hlength
  | @take party _ rest _ hqueue =>
      cases party with
      | parent =>
          have hlength := congrArg List.length hqueue
          exact (Nat.le_of_lt (hlength ▸ Nat.lt_succ_self rest.length)).trans hroom
      | handler => exact hroom
  | @post party | @abandon party | @call party | @report party => cases party <;> exact hroom
  | refuse | close | finish => exact hroom

end Step

/-- The outbox of a worker from which nothing was taken and to which so many posts were begun. -/
structure Worker.Fills (worker : Worker Message) (posts : Nat) : Prop where
  ordered : worker.Ordered
  silent : worker.parent ≠ .receiving
  untaken : worker.outbox.returned = []
  room : worker.outbox.queue.length ≤ Channel.capacity
  begun_le : worker.begun ≤ posts
  begun_eq : worker.done = false → worker.begun = posts

theorem Worker.fills_new : (Worker.new : Worker Message).Fills 0 :=
  ⟨Worker.ordered_new, nofun, rfl, Nat.zero_le _, Nat.le_refl _, fun _ => rfl⟩

namespace Worker.Fills

variable {worker next : Worker Message} {action : Action Message} {posts : Nat}

theorem posted_eq (fills : worker.Fills posts) : worker.outbox.posted = worker.outbox.queue := by
  rw [fills.ordered.outbox.split, fills.untaken, List.nil_append]

theorem step (fills : worker.Fills posts) (hstep : Step worker action next) (hcall : action ≠ .call .parent) :
    next.Fills (posts + if (CallbackAction.method action).posts then 1 else 0) where
  ordered := fills.ordered.step hstep
  silent := (hstep.untaken hcall fills.silent).1
  untaken := (hstep.untaken hcall fills.silent).2.trans fills.untaken
  room := hstep.room fills.room
  begun_le := by
    have hbegun := fills.begun_le
    rcases hstep.begun with heq | ⟨-, hle⟩ <;> omega
  begun_eq hopen := by
    have hwas : worker.done = false := by
      by_contra hclosed
      rw [Bool.not_eq_false] at hclosed
      exact Bool.false_ne_true (hopen.symm.trans (hstep.closed hclosed))
    rcases hstep.begun with heq | ⟨hclosed, -⟩
    · rw [heq, fills.begun_eq hwas]
    · exact absurd (hwas.symm.trans hclosed) Bool.false_ne_true

end Worker.Fills

namespace CallbackWorker

/-- Between two posts every callback was called with what was posted, and in a post those that had their turn
with its message too. -/
inductive Logged (state : CallbackWorker Message) : Prop
  | idle (hdispatch : state.dispatch = .idle) (hposted : state.worker.outbox.posted = state.completed)
      (hcalls : ∀ calls ∈ state.calls, calls = state.completed)
  | sent {message : Message} (hdispatch : state.dispatch = .sent message) (hhandler : state.worker.handler = .idle)
      (hposted : state.worker.outbox.posted = state.completed ++ [message])
      (hcalls : ∀ calls ∈ state.calls, calls = state.completed)
  | calling {message : Message} {next : Nat} (hdispatch : state.dispatch = .calling message next state.calls.length)
      (hhandler : state.worker.handler = .idle)
      (hposted : state.worker.outbox.posted = state.completed ++ [message]) (hnext : next ≤ state.calls.length)
      (hcalls : ∀ index < state.calls.length, state.calls[index]? =
        some (if index < next then state.completed ++ [message] else state.completed))
  | panicked (hdispatch : state.dispatch = .panicked) (hhandler : state.worker.handler = .finished)

structure Announced (posts : Nat) (state : CallbackWorker Message) : Prop where
  fills : state.worker.Fills posts
  logged : state.Logged

theorem announced_new : (new : CallbackWorker Message).Announced 0 :=
  ⟨Worker.fills_new, .idle rfl rfl fun _ hmem => nomatch hmem⟩

section Step

variable {state next : CallbackWorker Message} {posts : Nat}

theorem call_calls {message : Message} {index : Nat}
    (hcalls : ∀ other < state.calls.length, state.calls[other]? =
      some (if other < index then state.completed ++ [message] else state.completed)) :
    ∀ other < (state.call index message).calls.length, (state.call index message).calls[other]? =
      some (if other < index + 1 then state.completed ++ [message] else state.completed) := by
  intro other hother
  rw [call, List.length_modify] at hother
  rw [call, List.getElem?_modify, hcalls other hother, Option.map_eq_map, Option.map_some]
  congr 1
  rcases Nat.lt_trichotomy other index with hless | heq | hgreater
  · rw [if_neg (by omega), if_pos hless, if_pos (by omega)]
  · rw [if_pos heq.symm, if_neg (by omega), if_pos (by omega)]
  · rw [if_neg (by omega), if_neg (by omega), if_neg (by omega)]

theorem Announced.register (announced : state.Announced 0) :
    ({ state with calls := state.calls ++ [[]] } : CallbackWorker Message).Announced 0 := by
  have hposted : state.worker.outbox.posted = [] := by
    have hbegun := announced.fills.begun_le
    exact List.eq_nil_of_length_eq_zero (by rw [Worker.begun] at hbegun; omega)
  refine ⟨announced.fills, ?_⟩
  cases announced.logged with
  | idle hdispatch hcompleted hcalls =>
      refine .idle hdispatch hcompleted fun calls hmem => ?_
      rcases List.mem_append.mp hmem with hmem | hmem
      · exact hcalls calls hmem
      · rw [List.mem_singleton.mp hmem, ← hposted, hcompleted]
  | sent _ _ hsent | calling _ _ hsent =>
      rw [hposted] at hsent
      exact absurd hsent.symm (List.append_ne_nil_of_right_ne_nil _ (List.cons_ne_nil _ _))
  | panicked hdispatch hhandler => exact .panicked hdispatch hhandler

theorem Announced.method (announced : state.Announced posts) {worker : Worker Message} {action : Action Message}
    (hstep : Step state.worker action worker) (hcall : action ≠ .call .parent)
    (hfree : action.ofHandler = true → state.dispatch = .idle)
    (hother : ∀ message, action ≠ .send .handler message) :
    ({ state with worker := worker } : CallbackWorker Message).Announced
      (posts + if (CallbackAction.method action).posts then 1 else 0) := by
  refine ⟨announced.fills.step hstep hcall, ?_⟩
  have hposted := hstep.posted hother
  have hhandler : state.dispatch ≠ .idle → worker.handler = state.worker.handler := fun hbusy =>
    hstep.handler_eq (Bool.eq_false_iff.mpr fun hhandler => hbusy (hfree hhandler))
  cases announced.logged with
  | idle hdispatch hcompleted hcalls => exact .idle hdispatch (hposted.trans hcompleted) hcalls
  | sent hdispatch hidle hsent hcalls =>
      exact .sent hdispatch ((hhandler (hdispatch ▸ nofun)).trans hidle) (hposted.trans hsent) hcalls
  | calling hdispatch hidle hsent hnext hcalls =>
      exact .calling hdispatch ((hhandler (hdispatch ▸ nofun)).trans hidle) (hposted.trans hsent) hnext hcalls
  | panicked hdispatch hfinished =>
      exact .panicked hdispatch ((hhandler (hdispatch ▸ nofun)).trans hfinished)

theorem Announced.step {action : CallbackAction Message} (announced : state.Announced posts)
    (hstep : CallbackStep state action next) (hcall : action ≠ .method (.call .parent))
    (hregister : action = .register → posts = 0) :
    next.Announced (posts + if action.posts then 1 else 0) := by
  cases hstep with
  | register =>
      obtain rfl := hregister rfl
      exact announced.register
  | method hstep hfree hother =>
      exact announced.method hstep (fun heq => hcall (congrArg CallbackAction.method heq)) hfree hother
  | @send worker message hstep hfree =>
      refine ⟨announced.fills.step hstep nofun, ?_⟩
      cases hstep
      cases announced.logged with
      | idle _ hcompleted hcalls =>
          exact .sent rfl rfl (congrArg (· ++ [message]) hcompleted) hcalls
      | sent hdispatch | calling hdispatch | panicked hdispatch => cases hfree.symm.trans hdispatch
  | copy hsent =>
      refine ⟨announced.fills, ?_⟩
      cases announced.logged with
      | idle hdispatch | calling hdispatch | panicked hdispatch => cases hsent.symm.trans hdispatch
      | sent hdispatch hidle hposted hcalls =>
          cases hsent.symm.trans hdispatch
          refine .calling rfl hidle hposted (Nat.zero_le _) fun index hindex => ?_
          rw [if_neg (Nat.not_lt_zero index), List.getElem?_eq_getElem hindex]
          exact congrArg some (hcalls _ (List.getElem_mem hindex))
  | callback hcalling hmore =>
      refine ⟨announced.fills, ?_⟩
      cases announced.logged with
      | idle hdispatch | sent hdispatch | panicked hdispatch => cases hcalling.symm.trans hdispatch
      | calling hdispatch hidle hposted hnext hcalls =>
          cases hcalling.symm.trans hdispatch
          refine .calling ?_ hidle hposted ?_ (call_calls hcalls)
          · exact congrArg (Dispatch.calling _ _) (List.length_modify _ _ _).symm
          · exact hmore.trans_eq (List.length_modify _ _ _).symm
  | panic hcalling =>
      cases announced.logged with
      | idle hdispatch | sent hdispatch | panicked hdispatch => cases hcalling.symm.trans hdispatch
      | calling hdispatch hidle => exact ⟨announced.fills.step (.finish hidle) nofun, .panicked rfl rfl⟩
  | complete hcalling =>
      refine ⟨announced.fills, ?_⟩
      cases announced.logged with
      | idle hdispatch | sent hdispatch | panicked hdispatch => cases hcalling.symm.trans hdispatch
      | calling hdispatch hidle hposted hnext hcalls =>
          cases hcalling.symm.trans hdispatch
          refine .idle rfl hposted fun calls hmem => ?_
          obtain ⟨index, hindex, rfl⟩ := List.mem_iff_getElem.mp hmem
          have hcall := hcalls index hindex
          rw [List.getElem?_eq_getElem hindex, if_pos hindex] at hcall
          exact Option.some.inj hcall

end Step

section Progress

variable {state : CallbackWorker Message} {message : Message} {posts : Nat}

theorem CanComplete.step {next : CallbackWorker Message} {action : CallbackAction Message}
    (hcomplete : next.CanComplete message) (hstep : CallbackStep state action next)
    (hcompleted : next.completed = state.completed) (hclose : action ≠ .method .close)
    (hcall : action ≠ .method (.call .parent)) : state.CanComplete message := by
  obtain ⟨run, last, hrun, hcontinues, hlast⟩ := hcomplete
  exact ⟨(action, next) :: run, last, .cons hstep hrun, List.forall_mem_cons.mpr ⟨⟨hclose, hcall⟩, hcontinues⟩,
    hlast.trans (congrArg (· ++ [message]) hcompleted)⟩

theorem canComplete_calling {next count : Nat} (hdispatch : state.dispatch = .calling message next count)
    (hnext : next ≤ count) : state.CanComplete message := by
  obtain ⟨left, rfl⟩ := Nat.exists_eq_add_of_le hnext
  induction left generalizing state next with
  | zero => exact ⟨[(.complete, _)], _, .cons (.complete hdispatch) .nil, by simp, rfl⟩
  | succ left ih =>
      have hmore : next < next + (left + 1) := by omega
      have hrest : CanComplete { state.call next message with
          dispatch := .calling message (next + 1) (next + (left + 1)) } message := by
        rw [show next + (left + 1) = next + 1 + left by omega]
        exact ih rfl (Nat.le_add_right _ _)
      exact hrest.step (.callback hdispatch hmore) rfl nofun nofun

theorem canComplete_sent (hdispatch : state.dispatch = .sent message) : state.CanComplete message :=
  (canComplete_calling rfl (Nat.zero_le _)).step (.copy hdispatch) rfl nofun nofun

theorem canComplete_posting (hdispatch : state.dispatch = .idle) (hposting : state.worker.handler = .posting message)
    (hroom : state.worker.outbox.queue.length < Channel.capacity) : state.CanComplete message :=
  (canComplete_sent rfl).step (.send (.send hposting hroom) hdispatch) rfl nofun nofun

structure Blocked (state : CallbackWorker Message) : Prop where
  posting : ∃ message, state.worker.handler = .posting message
  full : Channel.capacity ≤ state.worker.outbox.queue.length
  silent : state.worker.parent ≠ .receiving
  opened : state.worker.done = false
  dispatch : state.dispatch = .idle

theorem Blocked.step {next : CallbackWorker Message} {action : CallbackAction Message} (blocked : state.Blocked)
    (hstep : CallbackStep state action next) (hclose : action ≠ .method .close)
    (hcall : action ≠ .method (.call .parent)) : next.Blocked ∧ next.completed = state.completed := by
  obtain ⟨⟨message, hposting⟩, hfull, hsilent, hopen, hdispatch⟩ := blocked
  cases hstep with
  | register => exact ⟨⟨⟨message, hposting⟩, hfull, hsilent, hopen, hdispatch⟩, rfl⟩
  | copy hbusy | callback hbusy | panic hbusy | complete hbusy => cases hdispatch.symm.trans hbusy
  | send hstep =>
      cases hstep with
      | send _ hroom => exact absurd hfull (Nat.not_le_of_lt hroom)
  | method hstep hfree hother =>
      refine ⟨?_, rfl⟩
      cases hstep with
      | @post party _ hidle =>
          cases party with
          | parent => exact ⟨⟨message, hposting⟩, hfull, nofun, hopen, hdispatch⟩
          | handler => cases hposting.symm.trans hidle
      | @send party other =>
          cases party with
          | parent => exact ⟨⟨message, hposting⟩, hfull, nofun, hopen, hdispatch⟩
          | handler => exact absurd rfl (hother other)
      | @call party hidle =>
          cases party with
          | parent => exact absurd rfl hcall
          | handler => cases hposting.symm.trans hidle
      | refuse _ _ hclosed | abandon _ hclosed | report _ hclosed => exact absurd (hopen.symm.trans hclosed) Bool.false_ne_true
      | @take party _ _ hreceiving =>
          cases party with
          | parent => exact absurd hreceiving hsilent
          | handler => cases hposting.symm.trans hreceiving
      | close => exact absurd rfl hclose
      | finish hidle => cases hposting.symm.trans hidle

theorem Blocked.run {run : List (CallbackAction Message × CallbackWorker Message)} {last : CallbackWorker Message}
    (blocked : state.Blocked) (hrun : CallbackRuns state run last)
    (hcontinues : ∀ reached ∈ run, reached.1 ≠ .method .close ∧ reached.1 ≠ .method (.call .parent)) :
    last.completed = state.completed := by
  induction hrun with
  | nil => rfl
  | cons hstep _ ih =>
      obtain ⟨⟨hclose, hcall⟩, hrest⟩ := List.forall_mem_cons.mp hcontinues
      obtain ⟨hblocked, hcompleted⟩ := blocked.step hstep hclose hcall
      exact (ih hblocked hrest).trans hcompleted

theorem Blocked.not_canComplete (blocked : state.Blocked) : ¬state.CanComplete message := by
  rintro ⟨run, last, hrun, hcontinues, hlast⟩
  rw [blocked.run hrun hcontinues] at hlast
  exact absurd (List.self_eq_append_right.mp hlast) (List.cons_ne_nil _ _)

theorem Announced.answers_iff (announced : state.Announced posts) (hopen : state.worker.done = false) :
    state.Answers ↔ posts ≤ Channel.capacity := by
  have hbegun : state.worker.outbox.queue.length + state.worker.handler.pending = posts := by
    rw [← announced.fills.posted_eq]
    exact announced.fills.begun_eq hopen
  have hroom := announced.fills.room
  constructor
  · intro hanswers
    by_contra hmore
    cases hthread : state.worker.handler with
    | idle | receiving | finished =>
        rw [hthread] at hbegun
        exact hmore (hbegun ▸ hroom)
    | posting message =>
        have hdispatch : state.dispatch = .idle := by
          cases announced.logged with
          | idle hdispatch => exact hdispatch
          | sent _ hidle | calling _ hidle | panicked _ hidle => cases hthread.symm.trans hidle
        have hunderWay : state.underWay = some message := by
          rw [underWay, hdispatch, hthread]
        have hfull : Channel.capacity ≤ state.worker.outbox.queue.length := by
          rw [hthread, Thread.pending] at hbegun
          omega
        have hblocked : state.Blocked := ⟨⟨message, hthread⟩, hfull, announced.fills.silent, hopen, hdispatch⟩
        exact hblocked.not_canComplete (hanswers.completes message hunderWay)
  · intro hposts
    refine ⟨fun message hunderWay => ?_, fun hdispatch => ?_⟩
    · cases hdispatch : state.dispatch with
      | idle =>
          rw [underWay, hdispatch] at hunderWay
          cases hthread : state.worker.handler with
          | idle | receiving | finished =>
              rw [hthread] at hunderWay
              cases hunderWay
          | posting other =>
              rw [hthread] at hunderWay
              cases hunderWay
              rw [hthread, Thread.pending] at hbegun
              exact canComplete_posting hdispatch hthread (by omega)
      | sent other =>
          rw [underWay, hdispatch] at hunderWay
          cases hunderWay
          exact canComplete_sent hdispatch
      | calling other next count =>
          rw [underWay, hdispatch] at hunderWay
          cases hunderWay
          cases announced.logged with
          | idle hother | sent hother | panicked hother => cases hdispatch.symm.trans hother
          | calling hother _ _ hnext =>
              cases hdispatch.symm.trans hother
              exact canComplete_calling hdispatch hnext
      | panicked =>
          rw [underWay, hdispatch] at hunderWay
          cases hunderWay
    · cases announced.logged with
      | idle _ hcompleted hcalls => exact ⟨hcompleted.symm, hcalls⟩
      | sent hother | calling hother | panicked hother => cases hdispatch.symm.trans hother

end Progress

theorem Announced.answers_run_iff {state last : CallbackWorker Message} {posts : Nat}
    {run : List (CallbackAction Message × CallbackWorker Message)} (announced : state.Announced posts)
    (hposts : posts ≤ Channel.capacity) (hrun : CallbackRuns state run last) (hparent : CallbacksOnly run)
    (hregister : 0 < posts → ∀ reached ∈ run, reached.1 ≠ .register) :
    (∀ reached ∈ run, reached.2.worker.done = false → reached.2.Answers) ↔
      posts + run.countP (·.1.posts) ≤ Channel.capacity := by
  induction hrun generalizing posts with
  | nil => exact iff_of_true (fun _ hmem => nomatch hmem) hposts
  | @cons state next last action rest hstep hrest ih =>
      obtain ⟨hfirst, huntaken⟩ := hparent
      obtain ⟨hhead, hpairs⟩ := List.pairwise_cons.mp hfirst
      obtain ⟨hcall, hcalls⟩ := List.forall_mem_cons.mp huntaken
      have hnone : action = .register → posts = 0 := fun heq =>
        Nat.eq_zero_of_not_pos fun hpos => hregister hpos _ List.mem_cons_self heq
      have hnext := announced.step hstep hcall hnone
      have hlater : 0 < posts + (if action.posts then 1 else 0) → ∀ reached ∈ rest, reached.1 ≠ .register := by
        intro hpos reached hmem
        cases hposting : action.posts with
        | true => exact hhead reached hmem hposting
        | false =>
            rw [hposting] at hpos
            exact hregister hpos reached (List.mem_cons_of_mem _ hmem)
      have hcount : ((action, next) :: rest).countP (·.1.posts) =
          rest.countP (·.1.posts) + if action.posts then 1 else 0 := List.countP_cons
      rw [hcount, List.forall_mem_cons]
      by_cases hroom : posts + (if action.posts then 1 else 0) ≤ Channel.capacity
      · rw [ih hnext hroom ⟨hpairs, hcalls⟩ hlater, and_iff_right fun hopen => (hnext.answers_iff hopen).mpr hroom]
        omega
      · refine iff_of_false (fun hanswers => ?_) (by omega)
        have hposting : action.posts = true := by
          by_contra hnot
          rw [if_neg hnot] at hroom
          exact hroom hposts
        have hopen : next.worker.done = false := hstep.opened hposting
        exact hroom ((hnext.answers_iff hopen).mp (hanswers.1 hopen))

end CallbackWorker

/-- In a run of a worker whose parent only has callbacks every post to the parent that is begun before `Close`
can complete, and has then called each callback once, exactly if no more posts are begun than the buffer of the
outbox has room for. -/
theorem callbacks_answered_iff {run : List (CallbackAction Message × CallbackWorker Message)}
    {last : CallbackWorker Message} (hrun : CallbackRuns CallbackWorker.new run last)
    (hparent : CallbacksOnly run) :
    (∀ reached ∈ run, reached.2.worker.done = false → reached.2.Answers) ↔
      run.countP (·.1.posts) ≤ Channel.capacity := by
  have hiff := CallbackWorker.announced_new.answers_run_iff (Nat.zero_le _) hrun hparent
    fun hpos => absurd hpos (Nat.lt_irrefl 0)
  rwa [Nat.zero_add] at hiff

def told (posted : List Nat) : CallbackWorker Nat :=
  { CallbackWorker.new with
    worker := { Worker.new with outbox := ⟨posted, posted, posted, [], false⟩ }
    calls := [posted]
    completed := posted }

/-- One more post. -/
def announce (posted : List Nat) (message : Nat) : List (CallbackAction Nat × CallbackWorker Nat) :=
  let posting : CallbackWorker Nat :=
    { told posted with worker := (told posted).worker.setThread .handler (.posting message) }
  let sent : CallbackWorker Nat :=
    { told posted with worker := (told (posted ++ [message])).worker, dispatch := .sent message }
  let calling : CallbackWorker Nat := { sent with dispatch := .calling message 0 1 }
  let called : CallbackWorker Nat :=
    { sent with calls := [posted ++ [message]], dispatch := .calling message 1 1 }
  [(.method (.post .handler message), posting), (.method (.send .handler message), sent), (.copy, calling),
    (.callback, called), (.complete, told (posted ++ [message]))]

theorem announce_runs {posted : List Nat} {message : Nat}
    {rest : List (CallbackAction Nat × CallbackWorker Nat)} {last : CallbackWorker Nat}
    (hroom : posted.length < Channel.capacity) (hrest : CallbackRuns (told (posted ++ [message])) rest last) :
    CallbackRuns (told posted) (announce posted message ++ rest) last := by
  refine .cons (.method (.post message rfl rfl) (fun _ => rfl) nofun) ?_
  refine .cons (.send (.send rfl hroom) rfl) ?_
  refine .cons (.copy rfl) ?_
  refine .cons (.callback rfl Nat.one_pos) ?_
  exact .cons (.complete rfl) hrest

theorem told_runs : CallbackRuns CallbackWorker.new ((.register, told []) :: announce [] 7) (told [7]) :=
  .cons .register (announce_runs (by decide) .nil)

theorem told_answered_iff :
    (∀ reached ∈ (.register, told []) :: announce [] 7, reached.2.worker.done = false → reached.2.Answers) ↔
      ((.register, told []) :: announce [] 7).countP (·.1.posts) ≤ Channel.capacity :=
  callbacks_answered_iff told_runs ⟨by decide, by decide⟩

def announcements (posted : List Nat) : Nat → List (CallbackAction Nat × CallbackWorker Nat)
  | 0 => [(.method (.post .handler 7),
      { told posted with worker := (told posted).worker.setThread .handler (.posting 7) })]
  | count + 1 => announce posted 7 ++ announcements (posted ++ [7]) count

theorem announcements_runs (posted : List Nat) (count : Nat) (hroom : posted.length + count ≤ Channel.capacity) :
    ∃ last, CallbackRuns (told posted) (announcements posted count) last := by
  induction count generalizing posted with
  | zero => exact ⟨_, .cons (.method (.post 7 rfl rfl) (fun _ => rfl) nofun) .nil⟩
  | succ count ih =>
      obtain ⟨last, hrest⟩ := ih (posted ++ [7]) (by rw [List.length_append, List.length_singleton]; omega)
      exact ⟨last, announce_runs (by omega) hrest⟩

theorem announcements_actions (posted : List Nat) (count : Nat) :
    (∀ reached ∈ announcements posted count, reached.1 ≠ .register ∧ reached.1 ≠ .method (.call .parent)) ∧
      (announcements posted count).countP (·.1.posts) = count + 1 := by
  induction count generalizing posted with
  | zero => exact ⟨by simp [announcements], rfl⟩
  | succ count ih =>
      obtain ⟨hactions, hcount⟩ := ih (posted ++ [7])
      refine ⟨?_, ?_⟩
      · rw [announcements, List.forall_mem_append]
        exact ⟨by simp [announce], hactions⟩
      · rw [announcements, List.countP_append, hcount]
        exact Nat.add_comm 1 _

/-- The post after the last one that the buffer has room for does not return. -/
theorem announcements_stuck :
    ¬∀ (run : List (CallbackAction Nat × CallbackWorker Nat)) (last : CallbackWorker Nat),
      CallbackRuns CallbackWorker.new run last → CallbacksOnly run →
        ∀ reached ∈ run, reached.2.worker.done = false → reached.2.Answers := by
  intro hanswers
  obtain ⟨last, hrun⟩ := announcements_runs [] Channel.capacity (Nat.zero_add _).le
  obtain ⟨hactions, hcount⟩ := announcements_actions [] Channel.capacity
  have hparent : CallbacksOnly ((.register, told []) :: announcements [] Channel.capacity) := by
    refine ⟨List.pairwise_cons.mpr ⟨fun _ _ => nofun, ?_⟩, List.forall_mem_cons.mpr ⟨nofun, ?_⟩⟩
    · exact List.pairwise_of_forall_mem_list fun _ _ _ hlater _ => (hactions _ hlater).1
    · exact fun reached hmem => (hactions reached hmem).2
  have hwhole : CallbackRuns CallbackWorker.new ((.register, told []) :: announcements [] Channel.capacity) last :=
    .cons .register hrun
  have hiff := CallbackWorker.announced_new.answers_run_iff (Nat.zero_le _) hwhole hparent
    fun hpos => absurd hpos (Nat.lt_irrefl 0)
  have hle := hiff.mp (hanswers _ last hwhole hparent)
  rw [List.countP_cons_of_neg Bool.false_ne_true, hcount] at hle
  omega

end Jayess.Runtime
