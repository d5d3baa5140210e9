import Mathlib.Data.List.Infix

/-!
# Workers
-/

namespace Jayess.Runtime

inductive Party where
  | parent
  | handler
deriving DecidableEq, Repr

/-- Where a goroutine stands: between two calls, in the `select` of a post that saw `done` open, in the
`select` of a receive, or, for the handler, at its end. -/
inductive Thread (Message : Type) where
  | idle
  | posting (message : Message)
  | receiving
  | finished
deriving DecidableEq, Repr

/-- A channel, with the record of the calls on it: the messages of posts that returned nil, those of
them that did so before `Close`, the messages that receives returned, and whether one reported false. -/
structure Channel (Message : Type) where
  queue : List Message
  posted : List Message
  early : List Message
  returned : List Message
  reported : Bool
deriving DecidableEq, Repr

namespace Channel

variable {Message : Type}

def make : Channel Message := ⟨[], [], [], [], false⟩

/-- The buffer size both channels are made with. -/
def capacity : Nat := 32

/-- A post whose send case is chosen, with `done` open or closed. -/
def push (channel : Channel Message) (closed : Bool) (message : Message) : Channel Message :=
  { channel with
    queue := channel.queue ++ [message]
    posted := channel.posted ++ [message]
    early := if closed then channel.early else channel.early ++ [message] }

def pop (channel : Channel Message) (message : Message) (rest : List Message) : Channel Message :=
  { channel with queue := rest, returned := channel.returned ++ [message] }

/-- A receive whose `done` case is chosen. -/
def report (channel : Channel Message) : Channel Message := { channel with reported := true }

end Channel

structure Worker (Message : Type) where
  inbox : Channel Message
  outbox : Channel Message
  done : Bool
  parent : Thread Message
  handler : Thread Message
deriving DecidableEq, Repr

namespace Worker

variable {Message : Type}

/-- `NewWorker`. -/
def new : Worker Message := ⟨.make, .make, false, .idle, .idle⟩

def thread (worker : Worker Message) : Party → Thread Message
  | .parent => worker.parent
  | .handler => worker.handler

def setThread (worker : Worker Message) (party : Party) (thread : Thread Message) :
    Worker Message :=
  match party with
  | .parent => { worker with parent := thread }
  | .handler => { worker with handler := thread }

/-- `PostMessage` sends to the inbox, `PostToParent` to the outbox. -/
def outgoing (worker : Worker Message) : Party → Channel Message
  | .parent => worker.inbox
  | .handler => worker.outbox

def setOutgoing (worker : Worker Message) (party : Party) (channel : Channel Message) :
    Worker Message :=
  match party with
  | .parent => { worker with inbox := channel }
  | .handler => { worker with outbox := channel }

/-- `NextMessage` receives from the outbox, `Receive` from the inbox. -/
def incoming (worker : Worker Message) : Party → Channel Message
  | .parent => worker.outbox
  | .handler => worker.inbox

def setIncoming (worker : Worker Message) (party : Party) (channel : Channel Message) :
    Worker Message :=
  match party with
  | .parent => { worker with outbox := channel }
  | .handler => { worker with inbox := channel }

def close (worker : Worker Message) : Worker Message := { worker with done := true }

end Worker

inductive Action (Message : Type) where
  | post (party : Party) (message : Message)
  | refuse (party : Party) (message : Message)
  | send (party : Party) (message : Message)
  | abandon (party : Party) (message : Message)
  | call (party : Party)
  | take (party : Party) (message : Message)
  | report (party : Party)
  | close
  | finish
deriving DecidableEq, Repr

/-- One step of one goroutine. A party calls its receive until that reports false. -/
inductive Step {Message : Type} : Worker Message → Action Message → Worker Message → Prop where
  /-- A post that finds `done` open enters its `select`. -/
  | post {worker : Worker Message} {party : Party} (message : Message)
      (hidle : worker.thread party = .idle) (hopen : worker.done = false) :
      Step worker (.post party message) (worker.setThread party (.posting message))
  /-- A post that finds `done` closed returns an error. -/
  | refuse {worker : Worker Message} {party : Party} (message : Message)
      (hidle : worker.thread party = .idle) (hclosed : worker.done = true) :
      Step worker (.refuse party message) worker
  /-- The send case needs room in the buffer, and the post returns nil. -/
  | send {worker : Worker Message} {party : Party} {message : Message}
      (hposting : worker.thread party = .posting message)
      (hroom : (worker.outgoing party).queue.length < Channel.capacity) :
      Step worker (.send party message)
        ((worker.setOutgoing party ((worker.outgoing party).push worker.done message)).setThread
          party .idle)
  /-- The `done` case of a post, which returns an error. -/
  | abandon {worker : Worker Message} {party : Party} {message : Message}
      (hposting : worker.thread party = .posting message) (hclosed : worker.done = true) :
      Step worker (.abandon party message) (worker.setThread party .idle)
  | call {worker : Worker Message} {party : Party} (hidle : worker.thread party = .idle)
      (hmore : (worker.incoming party).reported = false) :
      Step worker (.call party) (worker.setThread party .receiving)
  | take {worker : Worker Message} {party : Party} {message : Message} {rest : List Message}
      (hreceiving : worker.thread party = .receiving)
      (hqueue : (worker.incoming party).queue = message :: rest) :
      Step worker (.take party message)
        ((worker.setIncoming party ((worker.incoming party).pop message rest)).setThread party .idle)
  /-- The `done` case of a receive, which returns false. -/
  | report {worker : Worker Message} {party : Party}
      (hreceiving : worker.thread party = .receiving) (hclosed : worker.done = true) :
      Step worker (.report party)
        ((worker.setIncoming party (worker.incoming party).report).setThread party .idle)
  /-- Anyone may close the worker at any time; `run` does once the handler has ended. -/
  | close {worker : Worker Message} : Step worker .close worker.close
  /-- The handler returns or panics. -/
  | finish {worker : Worker Message} (hidle : worker.handler = .idle) :
      Step worker .finish (worker.setThread .handler .finished)

/-- A run as the actions taken and the states reached. -/
inductive Runs {Message : Type} : Worker Message → List (Action Message × Worker Message) → Prop where
  | nil {worker : Worker Message} : Runs worker []
  | cons {worker next : Worker Message} {action : Action Message}
      {rest : List (Action Message × Worker Message)} (hstep : Step worker action next)
      (hrest : Runs next rest) : Runs worker ((action, next) :: rest)

variable {Message : Type}

/-- Messages come out once each and in the order they were posted; when `NextMessage` has reported
false, every message for which `PostToParent` returned nil was returned, and when `Receive` has, every
message for which `PostMessage` returned nil before `Close` was. -/
structure Worker.Delivers (worker : Worker Message) : Prop where
  outgoing : worker.outbox.returned <+: worker.outbox.posted
  incoming : worker.inbox.returned <+: worker.inbox.posted
  parent : worker.outbox.reported = true → worker.outbox.returned = worker.outbox.posted
  handler : worker.inbox.reported = true → worker.inbox.early <+: worker.inbox.returned

/-- No receive reports false while a message waits for it, and no post to the parent goes through once
the parent has been told that there is nothing left. -/
def Worker.Careful (worker : Worker Message) : Action Message → Prop
  | .report .parent => worker.outbox.queue = []
  | .report .handler => worker.inbox.early.length ≤ worker.inbox.returned.length
  | .send .handler _ => worker.outbox.reported = false
  | _ => True

/-- Every action of a run is careful in the state it is taken in. -/
def CarefulRun (worker : Worker Message) : List (Action Message × Worker Message) → Prop
  | [] => True
  | (action, next) :: rest => worker.Careful action ∧ CarefulRun next rest

/-! ## The channels along a run -/

/-- What is posted was returned or still waits, and the early messages are the first ones. -/
structure Channel.Ordered (channel : Channel Message) (closed : Bool) : Prop where
  split : channel.posted = channel.returned ++ channel.queue
  early : channel.early <+: channel.posted
  all_early : closed = false → channel.early = channel.posted
  reported : channel.reported = true → closed = true

namespace Channel.Ordered

variable {channel : Channel Message} {closed : Bool}

theorem make : (Channel.make : Channel Message).Ordered closed :=
  ⟨rfl, List.prefix_rfl, fun _ => rfl, nofun⟩

theorem push (hordered : channel.Ordered closed) (message : Message) :
    (channel.push closed message).Ordered closed where
  split := by
    simp only [Channel.push, hordered.split, List.append_assoc]
  early := by
    simp only [Channel.push]
    cases closed with
    | true => exact hordered.early.trans (List.prefix_append _ _)
    | false =>
      rw [hordered.all_early rfl]
      exact List.prefix_rfl
  all_early hopen := by
    subst hopen
    simp [Channel.push, hordered.all_early rfl]
  reported := hordered.reported

theorem pop (hordered : channel.Ordered closed) {message : Message} {rest : List Message}
    (hqueue : channel.queue = message :: rest) : (channel.pop message rest).Ordered closed where
  split := by
    have hsplit := hordered.split
    rw [hqueue] at hsplit
    simpa [Channel.pop] using hsplit
  early := hordered.early
  all_early := hordered.all_early
  reported := hordered.reported

theorem report (hordered : channel.Ordered true) : channel.report.Ordered true :=
  ⟨hordered.split, hordered.early, hordered.all_early, fun _ => rfl⟩

theorem close (hordered : channel.Ordered closed) : channel.Ordered true :=
  ⟨hordered.split, hordered.early, nofun, fun _ => rfl⟩

theorem returned_prefix (hordered : channel.Ordered closed) :
    channel.returned <+: channel.posted := by
  rw [hordered.split]
  exact List.prefix_append _ _

theorem returned_eq_iff (hordered : channel.Ordered closed) :
    channel.returned = channel.posted ↔ channel.queue = [] := by
  rw [hordered.split]
  constructor
  · intro heq
    exact List.self_eq_append_right.mp heq
  · intro hempty
    rw [hempty, List.append_nil]

theorem early_prefix_iff (hordered : channel.Ordered closed) :
    channel.early <+: channel.returned ↔ channel.early.length ≤ channel.returned.length := by
  constructor
  · exact List.IsPrefix.length_le
  · intro hlength
    exact List.prefix_of_prefix_length_le hordered.early hordered.returned_prefix hlength

end Channel.Ordered

structure Worker.Ordered (worker : Worker Message) : Prop where
  inbox : worker.inbox.Ordered worker.done
  outbox : worker.outbox.Ordered worker.done

theorem Worker.ordered_new : (Worker.new : Worker Message).Ordered := ⟨.make, .make⟩

variable {worker : Worker Message}

theorem Worker.Ordered.step {next : Worker Message} {action : Action Message}
    (hordered : worker.Ordered) (hstep : Step worker action next) : next.Ordered := by
  obtain ⟨hinbox, houtbox⟩ := hordered
  cases hstep with
  | @post party => cases party <;> exact ⟨hinbox, houtbox⟩
  | refuse => exact ⟨hinbox, houtbox⟩
  | @send party message =>
    cases party with
    | parent => exact ⟨hinbox.push message, houtbox⟩
    | handler => exact ⟨hinbox, houtbox.push message⟩
  | @abandon party => cases party <;> exact ⟨hinbox, houtbox⟩
  | @call party => cases party <;> exact ⟨hinbox, houtbox⟩
  | @take party _ _ _ hqueue =>
    cases party with
    | parent => exact ⟨hinbox, houtbox.pop hqueue⟩
    | handler => exact ⟨hinbox.pop hqueue, houtbox⟩
  | @report party _ hclosed =>
    cases party with
    | parent =>
      refine ⟨hinbox, ?_⟩
      rw [hclosed] at houtbox
      change (Channel.report worker.outbox).Ordered worker.done
      rw [hclosed]
      exact houtbox.report
    | handler =>
      refine ⟨?_, houtbox⟩
      rw [hclosed] at hinbox
      change (Channel.report worker.inbox).Ordered worker.done
      rw [hclosed]
      exact hinbox.report
  | close => exact ⟨hinbox.close, houtbox.close⟩
  | finish => exact ⟨hinbox, houtbox⟩

theorem Worker.Ordered.delivers_iff (hordered : worker.Ordered) :
    worker.Delivers ↔ (worker.outbox.reported = true → worker.outbox.queue = []) ∧
      (worker.inbox.reported = true →
        worker.inbox.early.length ≤ worker.inbox.returned.length) := by
  constructor
  · intro hdelivers
    exact ⟨fun hreported => hordered.outbox.returned_eq_iff.mp (hdelivers.parent hreported),
      fun hreported => hordered.inbox.early_prefix_iff.mp (hdelivers.handler hreported)⟩
  · rintro ⟨hparent, hhandler⟩
    exact ⟨hordered.outbox.returned_prefix, hordered.inbox.returned_prefix,
      fun hreported => hordered.outbox.returned_eq_iff.mpr (hparent hreported),
      fun hreported => hordered.inbox.early_prefix_iff.mpr (hhandler hreported)⟩

theorem Worker.Ordered.delivers_step_iff {next : Worker Message} {action : Action Message}
    (hordered : worker.Ordered) (hdelivers : worker.Delivers) (hstep : Step worker action next) :
    next.Delivers ↔ worker.Careful action := by
  have hnext := hordered.step hstep
  rw [hnext.delivers_iff]
  obtain ⟨hparent, hhandler⟩ := hordered.delivers_iff.mp hdelivers
  cases hstep with
  | @post party => cases party <;> exact iff_of_true ⟨hparent, hhandler⟩ trivial
  | refuse => exact iff_of_true ⟨hparent, hhandler⟩ trivial
  | @abandon party => cases party <;> exact iff_of_true ⟨hparent, hhandler⟩ trivial
  | @call party => cases party <;> exact iff_of_true ⟨hparent, hhandler⟩ trivial
  | close => exact iff_of_true ⟨hparent, hhandler⟩ trivial
  | finish => exact iff_of_true ⟨hparent, hhandler⟩ trivial
  | @send party message hposting hroom =>
    cases party with
    | parent =>
      -- After a report the worker is closed, so what is posted now is no early message.
      refine iff_of_true ⟨hparent, fun hreported => ?_⟩ trivial
      have hclosed := hordered.inbox.reported hreported
      change (if worker.done then worker.inbox.early else _).length ≤ worker.inbox.returned.length
      rw [hclosed]
      exact hhandler hreported
    | handler =>
      constructor
      · rintro ⟨hempty, -⟩
        by_contra hreported
        have hnil : worker.outbox.queue ++ [message] = [] :=
          hempty (Bool.not_eq_false _ ▸ hreported)
        exact absurd hnil (List.append_ne_nil_of_right_ne_nil _ (List.cons_ne_nil _ _))
      · intro hcareful
        refine ⟨fun hreported => ?_, hhandler⟩
        have hclash : worker.outbox.reported = true := hreported
        rw [show worker.outbox.reported = false from hcareful] at hclash
        cases hclash
  | @take party message rest hreceiving hqueue =>
    cases party with
    | parent =>
      refine iff_of_true ⟨fun hreported => ?_, hhandler⟩ trivial
      have hempty := hparent hreported
      rw [show worker.outbox.queue = message :: rest from hqueue] at hempty
      cases hempty
    | handler =>
      refine iff_of_true ⟨hparent, fun hreported => ?_⟩ trivial
      have hlength := hhandler hreported
      change worker.inbox.early.length ≤ (worker.inbox.returned ++ [message]).length
      rw [List.length_append]
      omega
  | @report party hreceiving hclosed =>
    cases party with
    | parent =>
      constructor
      · intro hmissed
        exact hmissed.1 rfl
      · intro hcareful
        exact ⟨fun _ => hcareful, hhandler⟩
    | handler =>
      constructor
      · intro hmissed
        exact hmissed.2 rfl
      · intro hcareful
        exact ⟨hparent, fun _ => hcareful⟩

theorem Worker.delivers_new : (Worker.new : Worker Message).Delivers :=
  ⟨List.prefix_rfl, List.prefix_rfl, nofun, nofun⟩

theorem Worker.Ordered.delivers_run_iff {run : List (Action Message × Worker Message)}
    (hordered : worker.Ordered) (hdelivers : worker.Delivers) (hrun : Runs worker run) :
    (∀ reached ∈ run, reached.2.Delivers) ↔ CarefulRun worker run := by
  induction hrun with
  | nil => simp [CarefulRun]
  | @cons worker next action rest hstep _ ih =>
    have hiff := hordered.delivers_step_iff hdelivers hstep
    rw [List.forall_mem_cons, CarefulRun]
    constructor
    · rintro ⟨hnow, hlater⟩
      exact ⟨hiff.mp hnow, (ih (hordered.step hstep) hnow).mp hlater⟩
    · rintro ⟨hcareful, hlater⟩
      have hnow := hiff.mpr hcareful
      exact ⟨hnow, (ih (hordered.step hstep) hnow).mpr hlater⟩

/-- What holds of every state of a run is what the run is careful about. -/
theorem worker_delivers_iff {run : List (Action Message × Worker Message)}
    (hrun : Runs Worker.new run) :
    (∀ reached ∈ run, reached.2.Delivers) ↔ CarefulRun Worker.new run :=
  Worker.ordered_new.delivers_run_iff Worker.delivers_new hrun

/-- The handler posts one message and returns; the parent's receive then finds both a message and the
closed `done`, and takes the latter. -/
def postThenReturn : List (Action Nat × Worker Nat) :=
  let posting : Worker Nat := { Worker.new with handler := .posting 7 }
  let posted : Worker Nat :=
    { Worker.new with outbox := Channel.make.push false 7 }
  let finished : Worker Nat := { posted with handler := .finished }
  let closed : Worker Nat := finished.close
  let receiving : Worker Nat := { closed with parent := .receiving }
  [(.post .handler 7, posting), (.send .handler 7, posted), (.finish, finished), (.close, closed),
    (.call .parent, receiving), (.report .parent, { closed with outbox := closed.outbox.report })]

theorem postThenReturn_runs : Runs Worker.new postThenReturn := by
  refine .cons (.post 7 rfl rfl) ?_
  refine .cons (.send rfl (by decide)) ?_
  refine .cons (.finish rfl) ?_
  refine .cons .close ?_
  refine .cons (.call rfl rfl) ?_
  exact .cons (.report rfl rfl) .nil

theorem postThenReturn_delivers_iff :
    (∀ reached ∈ postThenReturn, reached.2.Delivers) ↔ CarefulRun Worker.new postThenReturn :=
  worker_delivers_iff postThenReturn_runs

theorem postThenReturn_lost :
    Runs Worker.new postThenReturn ∧ ¬∀ reached ∈ postThenReturn, reached.2.Delivers := by
  refine ⟨postThenReturn_runs, fun hdelivers => ?_⟩
  have hlast := hdelivers (postThenReturn.getLast (by decide)) (List.getLast_mem _)
  have hreturned : ([] : List Nat) = [7] := hlast.parent rfl
  cases hreturned

end Jayess.Runtime
