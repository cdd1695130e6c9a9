import Piconet.CommandLine.Invocation
import Piconet.CommandLine.Terminal
import Piconet.Radio.Host
import Piconet.Radio.Receiver

/-!
# Following a piconet with a radio

The `rx` command tells a radio which piconet to follow, lets it stream records,
hands each record to a session, prints the packets, and sends the radio what
the session asks of it.  It ends after a given number of packets, or when it is
interrupted: while it waits for a request that does not complete, or for the
reply to a command.  However it ends, once streaming has been asked for the radio
is told to stop.
-/

namespace Piconet.CommandLine.Follow

open Script

def connect (host : Radio.Host) : Option String → Script Radio
  | none => do
      match ← talk host.connect.run with
      | .ok radio => return radio
      | .error error => complain "Failed to open Ubertooth" error.message
  | some serial => do
      match host.radios with
      | .error error => complain "Couldn't list Ubertooth devices" error.message
      | .ok radios =>
          match radios.find? fun descriptor => descriptor.serial = some serial with
          | none => throw { message := "Couldn't locate Ubertooth serial " ++ serial }
          | some descriptor =>
              match ← talk descriptor.connect.run with
              | .ok radio => return radio
              | .error error => complain "Couldn't open selected Ubertooth" error.message

def loadMap : Option ChannelMap → Radio.Conversation Unit
  | some map => Radio.setChannelMap map
  | none => Radio.clearChannelMap

def prepare (options : FollowOptions) (session : Session) : Script Unit := do
  demand "Failed setting the piconet address" (Radio.setAddress session.address)
  demand "Failed setting the AFH map" (loadMap session.map)
  if session.settings.clockOffset.isNone then
    demand "Failed setting the channel" (Radio.setChannel options.channel)

/-- The radio set to streaming; one that does not start is told to stop. -/
def start (radio : Radio) : Script Radio.Receiver := do
  match ← talk (Radio.startReceiving radio).run with
  | .ok receiver => return receiver
  | .error error =>
      let _ ← attempt Radio.stop
      complain "Failed to start receiving" error.cause.message

def startHopping (session : Session) : Script Unit := do
  if session.settings.clockOffset.isSome then
    let clock ← demand "Failed reading the clock" Radio.getClock
    (session.startCommands clock).forM fun command =>
      demand ("Failed to " ++ command.text) (Radio.send command)

structure Watch where
  receiver : Radio.Receiver
  session : Session
  /-- The packets that were printed. -/
  packets : Nat := 0
  /-- How many more replies to commands are waited for, if an interruption comes then. -/
  patience : Option Nat := none

/--
Sends commands one after another, whether or not they arrive.  The result says
whether an interruption came while a reply was waited for.
-/
def sendAll (watch : Watch) : List Command → Script (Watch × Bool)
  | [] => return (watch, false)
  | command :: rest => do
      let _ ← attempt (Radio.send command)
      match watch.patience with
      | none => sendAll watch rest
      | some 0 => return (watch, true)
      | some (patience + 1) => sendAll { watch with patience } rest

def submitMore : Nat → Radio.Receiver → Script Radio.Receiver
  | 0, receiver => return receiver
  | missing + 1, receiver => do
      submitMore missing (← talk receiver.submit)

def refill (depth : Nat) (watch : Watch) : Script Watch := do
  let receiver ← submitMore (depth - watch.receiver.pending) watch.receiver
  return { watch with receiver }

/-- One record, and whether it ended the watch: by the last packet or by an interruption. -/
def take (limit : Option Nat) (watch : Watch) (capture : Capture) : Script (Watch × Bool) := do
  match watch.session.process capture with
  | .error overflow => throw { ending := .abortion, message := overflow.message }
  | .ok (processed, packet) =>
      let (session, restart) := processed.drain
      let (restarted, interrupted) ← sendAll { watch with session } restart
      if interrupted then return (restarted, true)
      match packet with
      | none => return (restarted, false)
      | some packet =>
          print packet.text
          let packets := watch.packets + 1
          let (sent, interrupted) ← sendAll { restarted with packets } packet.commands
          return (sent, interrupted || limit.any (· ≤ packets))

/-- The records of one transfer, up to the one that ended the watch. -/
def takeAll (limit : Option Nat) : Watch → List Capture → Script (Watch × Bool)
  | watch, [] => return (watch, false)
  | watch, capture :: rest => do
      let (next, finished) ← take limit watch capture
      if finished then return (next, true) else takeAll limit next rest

/-- The transfers as they complete; a failed one is passed over. -/
def watchAll (depth : Nat) (limit : Option Nat) : Watch → List Radio.Reply → Script Watch
  | watch, [] => refill depth watch
  | watch, completion :: rest => do
      let filled ← refill depth watch
      let (receiver, captures) ← talk (filled.receiver.next completion)
      let completed := { filled with receiver }
      match captures with
      | .error _ => watchAll depth limit completed rest
      | .ok captures =>
          let (next, finished) ← takeAll limit completed captures
          if finished then return next else watchAll depth limit next rest

def follow (options : FollowOptions) (completions : List Radio.Reply)
    (patience : Option Nat) (receiver : Radio.Receiver) (session : Session) : Script Watch :=
  watchAll (max 1 options.depth) options.limit { receiver, session, patience } completions

/--
Follows a piconet with a radio that has been told of it, from the request to stream on.
The requests that are left in the end complete as cancelled, or as `leftovers` tell.
-/
def stream (options : FollowOptions) (completions leftovers : List Radio.Reply)
    (patience : Option Nat) (radio : Radio) (session : Session) : Script Unit := do
  let receiver ← start radio
  try startHopping session
  catch complaint =>
    let _ ← attempt (receiver.stop leftovers)
    throw complaint
  let watch ← follow options completions patience receiver session
  let _ ← demand "Failed to stop receiving" (watch.receiver.stop leftovers)

def withRadio (options : FollowOptions) (completions leftovers : List Radio.Reply)
    (patience : Option Nat) (radio : Radio) : Script Unit := do
  let session := Session.new options.address options.map options.settings
  prepare options session
  stream options completions leftovers patience radio session

def script (host : Radio.Host) (serial : Option String)
    (completions leftovers : List Radio.Reply) (patience : Option Nat)
    (options : FollowOptions) : Script Unit := do
  withRadio options completions leftovers patience (← connect host serial)

end Piconet.CommandLine.Follow
