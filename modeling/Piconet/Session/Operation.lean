import Piconet.Session

/-!
# Operations on a session

Everything that can be asked of a session, as data.  A run is a list of
operations; the answers come in the same order, and a run ends early only where
the arithmetic of the trim loop overflows.
-/

namespace Piconet.Session

inductive Operation where
  | process (capture : Capture)
  | drain
  | hop (clock : UInt32)
  | start (native : UInt32)
  | setMap (map : ChannelMap)
  | clearMap
  | resetTrim
  deriving DecidableEq

inductive Answer where
  | packet (packet : Option Packet)
  | commands (commands : List Command)
  | refused (error : HopSequence.MapError)
  | done
  deriving DecidableEq

def perform (session : Session) : Operation → Except Overflow (Session × Answer)
  | .process capture => do
      let (next, packet) ← session.process capture
      return (next, .packet packet)
  | .drain =>
      let (next, commands) := session.drain
      .ok (next, .commands commands)
  | .hop clock => .ok (session, .commands [session.hopCommand clock])
  | .start native => .ok (session, .commands (session.startCommands native))
  | .setMap map =>
      match session.setMap map with
      | (next, .ok command) => .ok (next, .commands [command])
      | (next, .error error) => .ok (next, .refused error)
  | .clearMap =>
      let (next, command) := session.clearMap
      .ok (next, .commands [command])
  | .resetTrim => .ok (session.resetTrim, .done)

def run (session : Session) : List Operation → Except Overflow (Session × List Answer)
  | [] => .ok (session, [])
  | operation :: rest => do
      let (next, answer) ← session.perform operation
      let (last, answers) ← next.run rest
      return (last, answer :: answers)

@[simp] theorem run_nil (session : Session) : session.run [] = .ok (session, []) :=
  rfl

end Piconet.Session
