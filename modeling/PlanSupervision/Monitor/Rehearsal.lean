import PlanSupervision.Monitor.Post

/-!
A monitoring post at work under a clock: commands are carried out one after the other, and
after each of them every task runs as far as it can.
-/

namespace PlanSupervision.MonitorPost

structure Rehearsal where
  post : MonitorPost
  agenda : Agenda MonitorTask
  guards : Nat
  buses : Nat
  position : Nat

inductive Command where
  | attachBus (slots : Nat)
  | enter
  | exit
  | progress (progress : Progress)
  | sleep (duration : Span)
  | supervise (routed : Bool)
  | send (events : List RemoteEvent)
  | close
  | cancel (job : Nat)
  | subscribe (listener : Listener)
  | unsubscribe (number : Nat)

inductive Answer where
  | done
  | number (value : Nat)
  | truth (value : Bool)

structure Report where
  answer : Answer
  now : Span
  phase : MonitorPhase
  waiting : Bool
  gates : List Gate
  published : List (List (Reception Event))
  finished : List (Nat × Option FollowResult)
  journal : Journal

namespace Rehearsal

def ofMonitor (monitor : Monitor) (cancelService alertService : Service)
    (listeners : List Listener) (remoteSlots : Nat) : Rehearsal :=
  { post :=
      { monitor, cancelService, cancelCalls := 0, alertService, alertCalls := 0
        observers := listeners.foldl Observers.subscribe .empty
        bus := none
        remote := .ofCapacity remoteSlots
        timers := [], escalations := [], followers := [], listening := []
        journal := [], finished := [], woken := [], rested := [] }
    agenda := .start
    guards := 0
    buses := 0
    position := 0 }

def heed (rehearsal : Rehearsal) : Rehearsal :=
  let post := rehearsal.post
  { rehearsal with
    post := { post with woken := [], rested := [] }
    agenda := post.rested.foldl Agenda.stepBack (rehearsal.agenda.wakeAll post.woken) }

def change (rehearsal : Rehearsal) (step : MonitorPost → MonitorPost) : Rehearsal :=
  { rehearsal with post := step rehearsal.post }.heed

instance : Cooperative Rehearsal MonitorTask where
  agenda := Rehearsal.agenda
  withAgenda rehearsal agenda := { rehearsal with agenda }
  perform rehearsal task :=
    rehearsal.change fun post => post.turn rehearsal.agenda.now task
  deadlines rehearsal task := rehearsal.post.deadlines task

def perform (rehearsal : Rehearsal) : Command → Answer × Rehearsal
  | .attachBus slots =>
      (.number rehearsal.buses,
        { rehearsal.change fun post => post.attach rehearsal.agenda.now slots with
          buses := rehearsal.buses + 1 })
  | .enter =>
      (.number (rehearsal.guards + 1),
        { rehearsal.change fun post => post.enter rehearsal.agenda.now with
          guards := rehearsal.guards + 1 })
  | .exit =>
      if rehearsal.guards = 0 then (.number 0, rehearsal)
      else
        (.number (rehearsal.guards - 1),
          { rehearsal.change fun post => post.exit rehearsal.agenda.now with
            guards := rehearsal.guards - 1 })
  | .progress progress => (.done, rehearsal.change fun post =>
      post.progress rehearsal.agenda.now progress)
  | .sleep duration =>
      (.done, Cooperative.passUntil (rehearsal.agenda.now + duration) rehearsal)
  | .supervise routed =>
      (.number rehearsal.post.followers.length,
        rehearsal.change fun post => post.beginFollowing routed)
  | .send events =>
      let received := if rehearsal.post.isFollowed && !rehearsal.post.remote.closed
        then events.length else 0
      (.number received, rehearsal.change fun post => events.foldl MonitorPost.send post)
  | .close => (.done, rehearsal.change MonitorPost.closeRemote)
  | .cancel job => (.done, rehearsal.change fun post =>
      post.cancelFollower rehearsal.agenda.now job)
  | .subscribe listener =>
      (.number rehearsal.post.observers.nextNumber,
        rehearsal.change fun post =>
          { post with observers := post.observers.subscribe listener })
  | .unsubscribe number =>
      (.truth (rehearsal.post.observers.isSubscribed number),
        rehearsal.change fun post =>
          { post with observers := post.observers.unsubscribe number })

def play (rehearsal : Rehearsal) (command : Command) : Report × Rehearsal :=
  let fresh := rehearsal.change fun post => { post with journal := [], finished := [] }
  let (answer, begun) := fresh.perform command
  let after := Cooperative.settle begun
  let (first, position) := match after.post.bus with
    | some bus => bus.drain after.position
    | none => ([], after.position)
  ({ answer
     now := after.agenda.now
     phase := after.post.monitor.phase
     waiting := after.post.monitor.waiting
     gates := after.post.observers.gates
     published := (List.range after.buses).map fun bus => if bus = 0 then first else []
     finished := after.post.finished
     journal := after.post.journal },
    { after with position })

end Rehearsal

end PlanSupervision.MonitorPost
