import Headway.Proofs.Channel.Delivery

/-!
`Broadcast.act` puts the reports of an action into the channel when the action is over.  The task
itself has the channel in its hands and gives it every report at once: that is `Broadcast.perform`,
and it comes to the same.
-/

namespace Headway.Broadcast

section Task

def hand (b : Broadcast) (r : Report) : Broadcast := { b with channel := b.channel.offer r }

def setTask (b : Broadcast) (task : Task) : Broadcast :=
  { b with session := b.session.setTask task }

def tick (b : Broadcast) : Broadcast :=
  let (transfer, result) := b.session.transfer.tick b.session.transfer.live
  let due : Task := .waiting (transfer.now.later b.session.reporter.interval)
  let seen : Broadcast := { b with session := { b.session with transfer := transfer } }
  match result with
  | .ok (some report) => (seen.hand report).setTask due
  | .ok none => seen.setTask due
  | .error _ => seen.setTask .broken

def turn (b : Broadcast) : Broadcast :=
  if b.session.reporter.stopRequested then
    (b.hand b.session.transfer.finalReport).setTask .finished
  else b.tick

def takeNotice (b : Broadcast) : Broadcast := { b with session := b.session.takeNotice }

def poll (b : Broadcast) : Broadcast :=
  match b.session.reporter.task with
  | .started => b.turn
  | .waiting _ => if b.session.reporter.notified then b.takeNotice.turn else b
  | _ => b

def moveTo (b : Broadcast) (t : Instant) : Broadcast :=
  { b with session := { b.session with transfer := { b.session.transfer with now := t } } }

def round (b : Broadcast) : Broadcast :=
  match b.session.reporter.task with
  | .waiting due => (b.moveTo due).turn
  | _ => b

def rounds : ℕ → Broadcast → Broadcast
  | 0, b => b
  | n + 1, b => rounds n b.round

def sleepUntil (b : Broadcast) (t : Instant) : Broadcast :=
  (rounds (b.poll.session.reporter.dueCount t) b.poll).moveTo t

def requestStop (b : Broadcast) : Broadcast := { b with session := b.session.requestStop }

def stop (b : Broadcast) : Broadcast :=
  match b.requestStop.poll.session.reporter.task with
  | .broken => b.requestStop.poll.setTask .finished
  | _ => b.requestStop.poll

/-- An action with the channel inside the task.  Only sleeping, waiting and stopping let it run. -/
def perform (b : Broadcast) (a : Action) : Broadcast × Answer :=
  match a with
  | .sleep d => (b.sleepUntil (b.session.transfer.now.later d.slept), .done)
  | .wait => (b.sleepUntil b.session.transfer.now, .done)
  | .stop => if b.session.dropped then (b, .gone) else (b.stop, .done)
  | .start | .signal | .drop | .hear _ =>
    ({ b with session := (b.session.act a).1 }, (b.session.act a).2.1)

def follow (b : Broadcast) (r : Session × List Emission) : Broadcast :=
  ⟨r.1, b.channel.offerAll (r.2.map Emission.report)⟩

theorem follow_follow (b : Broadcast) (s s' : Session) (es es' : List Emission) :
    (b.follow (s, es)).follow (s', es') = b.follow (s', es ++ es') := by
  simp [follow, Channel.offerAll, List.foldl_append]

theorem tick_eq (b : Broadcast) : b.tick = b.follow b.session.tick := by
  unfold tick Session.tick
  rcases b.session.transfer.tick b.session.transfer.live with ⟨t, _ | _ | r⟩
  · rfl
  · rfl
  · rfl

theorem turn_eq (b : Broadcast) : b.turn = b.follow b.session.turn := by
  unfold turn Session.turn
  cases b.session.reporter.stopRequested with
  | false => exact tick_eq b
  | true => rfl

theorem poll_eq (b : Broadcast) : b.poll = b.follow b.session.poll := by
  unfold poll Session.poll
  cases b.session.reporter.task with
  | started => exact turn_eq b
  | waiting due =>
    cases b.session.reporter.notified with
    | false => rfl
    | true => exact turn_eq b.takeNotice
  | absent | finished | broken => rfl

theorem round_eq (b : Broadcast) : b.round = b.follow b.session.round := by
  unfold round Session.round
  cases b.session.reporter.task with
  | waiting due => exact turn_eq (b.moveTo due)
  | absent | started | finished | broken => rfl

theorem rounds_eq (n : ℕ) (b : Broadcast) : rounds n b = b.follow (Session.rounds n b.session) := by
  induction n generalizing b with
  | zero => rfl
  | succ n ih =>
    rw [rounds, ih, round_eq, follow_follow]
    rfl

theorem sleepUntil_eq (b : Broadcast) (t : Instant) :
    b.sleepUntil t = b.follow (b.session.sleepUntil t) := by
  rw [sleepUntil, rounds_eq, poll_eq, follow_follow]
  rfl

theorem stop_eq (b : Broadcast) : b.stop = b.follow b.session.stop := by
  have hp : b.requestStop.poll = b.follow b.session.requestStop.poll := poll_eq b.requestStop
  rw [stop, Session.stop, hp]
  rcases b.session.requestStop.poll with ⟨s, es⟩
  simp only [follow]
  cases s.reporter.task <;> rfl

theorem perform_eq_act (b : Broadcast) (a : Action) : b.perform a = b.act a := by
  cases a with
  | sleep d => exact congrArg (·, Answer.done) (sleepUntil_eq b _)
  | wait => exact congrArg (·, Answer.done) (sleepUntil_eq b _)
  | stop =>
    unfold perform act Session.act
    cases b.session.dropped with
    | true => rfl
    | false => exact congrArg (·, Answer.done) (stop_eq b)
  | start =>
    unfold perform act Session.act
    cases b.session.dropped <;> rfl
  | signal => rfl
  | drop => rfl
  | hear news => rfl

end Task

inductive Question where
  | state
  | stopRequested
  | evidence
  | live
  | snapshot
  | finalReport
  | speed
  | elapsed
  | total
  deriving DecidableEq

inductive Reply where
  | acted (answer : Answer)
  | state (state : Option ReporterState)
  | flag (b : Bool)
  | evidence (evidence : Option Evidence)
  | live (totals : LiveTotals)
  | snapshot (snapshot : Snapshot)
  | report (report : Report)
  | speed (x : Float)
  | count (n : UInt64)

def tell (s : Session) : Question → Reply
  | .state => .state s.state?
  | .stopRequested => .flag s.reporter.stopRequested
  | .evidence => .evidence s.transfer.estimator.evidence
  | .live => .live s.transfer.live
  | .snapshot => .snapshot s.transfer.estimator.snapshot
  | .finalReport => .report s.transfer.finalReport
  | .speed => .speed s.transfer.estimator.speed
  | .elapsed => .count (s.transfer.estimator.elapsedSeconds s.transfer.now)
  | .total => .count s.transfer.estimator.total

inductive Step where
  | use (u : Use)
  | ask (q : Question)
  deriving DecidableEq

def Step.ofDisplay : Step → Bool
  | .use .drain | .use .close => true
  | .use (.act _) | .ask _ => false

def core (us : List Step) : List Step := us.filter fun u => !u.ofDisplay

def step (b : Broadcast) : Step → Broadcast
  | .use u => b.next u
  | .ask _ => b

def reached (b : Broadcast) (us : List Step) : Broadcast := us.foldl step b

def reply (b : Broadcast) : Step → List Reply
  | .use (.act a) => [.acted (b.act a).2]
  | .ask q => [tell b.session q]
  | .use .drain | .use .close => []

def replies : Broadcast → List Step → List Reply := trace step reply

def shown (b : Broadcast) : Step → List Emission
  | .use (.act a) => (b.session.act a).2.2
  | .use .drain | .use .close | .ask _ => []

def stream : Broadcast → List Step → List Emission := trace step shown

variable {b b' : Broadcast} {us us' : List Step}

theorem session_step (h : b.session = b'.session) (u : Step) :
    (b.step u).session = (b'.step u).session ∧ b.reply u = b'.reply u ∧ b.shown u = b'.shown u := by
  cases u with
  | ask q => exact ⟨h, by rw [reply, reply, h], rfl⟩
  | use u =>
    cases u with
    | drain => exact ⟨h, rfl, rfl⟩
    | close => exact ⟨h, rfl, rfl⟩
    | act a =>
      have hs : (b.session.act a) = b'.session.act a := by rw [h]
      refine ⟨congrArg Prod.fst hs, ?_, congrArg (·.2.2) hs⟩
      exact congrArg (fun r => [Reply.acted r.2.1]) hs

theorem still_of_display {u : Step} (h : u.ofDisplay = true) (b : Broadcast) :
    (b.step u).session = b.session ∧ b.reply u = [] ∧ b.shown u = [] := by
  cases u with
  | ask q => cases h
  | use u =>
    cases u with
    | act a => cases h
    | drain => exact ⟨rfl, rfl, rfl⟩
    | close => exact ⟨rfl, rfl, rfl⟩

theorem run_core (h : b.session = b'.session) (us : List Step) :
    b.replies us = b'.replies (core us) ∧ b.stream us = b'.stream (core us) := by
  induction us generalizing b b' with
  | nil => exact ⟨rfl, rfl⟩
  | cons u us ih =>
    rw [replies, stream, trace, trace, ← replies, ← stream]
    cases hu : u.ofDisplay with
    | true =>
      obtain ⟨hs, hr, he⟩ := still_of_display hu b
      obtain ⟨hrs, hes⟩ := ih (hs.trans h)
      have hcore : core (u :: us) = core us := List.filter_cons_of_neg (by simp [hu])
      rw [hr, he, hrs, hes, hcore]
      exact ⟨rfl, rfl⟩
    | false =>
      obtain ⟨hs, hr, he⟩ := session_step h u
      obtain ⟨hrs, hes⟩ := ih hs
      have hcore : core (u :: us) = u :: core us := List.filter_cons_of_pos (by simp [hu])
      rw [hr, he, hrs, hes, hcore]
      exact ⟨rfl, rfl⟩

structure Undisturbed (b b' : Broadcast) (us us' : List Step) : Prop where
  replies : b.replies us = b'.replies us'
  stream : b.stream us = b'.stream us'
  prompt : ∀ before a later, us = before ++ .use (.act a) :: later →
    (b.reached before).perform a = (b.reached before).act a

theorem undisturbed (config : Config) (options : EstimatorOptions) (capacity capacity' : ℕ)
    (us us' : List Step) (h : core us = core us') :
    Undisturbed ⟨.starting config options, .empty capacity⟩
      ⟨.starting config options, .empty capacity'⟩ us us' := by
  let b : Broadcast := ⟨.starting config options, .empty capacity⟩
  let b' : Broadcast := ⟨.starting config options, .empty capacity'⟩
  have hs : b.session = b'.session := rfl
  obtain ⟨hr, he⟩ := run_core hs us
  obtain ⟨hr', he'⟩ := run_core (rfl : b'.session = b'.session) us'
  rw [h] at hr he
  refine ⟨hr.trans hr'.symm, he.trans he'.symm, ?_⟩
  intro before a later _
  exact perform_eq_act _ a

def watched : List Step :=
  [.use (.act (.hear (.evidence ⟨0, 1000⟩))), .use (.act (.hear (.live (.setChanged 40)))),
    .use (.act .start), .use (.act (.sleep (.ofMillis 9000))), .use .drain, .ask .snapshot,
    .use (.act .stop), .use .drain, .ask .state, .ask .finalReport]

def unwatched : List Step :=
  [.use (.act (.hear (.evidence ⟨0, 1000⟩))), .use (.act (.hear (.live (.setChanged 40)))),
    .use (.act .start), .use (.act (.sleep (.ofMillis 9000))), .ask .snapshot, .use .close,
    .use (.act .stop), .ask .state, .ask .finalReport]

theorem undisturbed_unwatched :
    core watched = core unwatched ∧
      Undisturbed ⟨.starting .standard (.ofConfig .standard), .empty 5⟩
        ⟨.starting .standard (.ofConfig .standard), .empty 1⟩ watched unwatched ∧
      (stream ⟨.starting .standard (.ofConfig .standard), .empty 1⟩ unwatched).map Emission.time =
        [⟨0⟩, ⟨3000000000⟩, ⟨6000000000⟩, ⟨9000000000⟩, ⟨9000000000⟩] ∧
      (reached ⟨.starting .standard (.ofConfig .standard), .empty 1⟩ unwatched).channel.isOpen =
        false := by
  have h : core watched = core unwatched := by decide +kernel
  refine ⟨h, undisturbed .standard (.ofConfig .standard) 5 1 watched unwatched h, ?_, rfl⟩
  decide +kernel

end Headway.Broadcast
