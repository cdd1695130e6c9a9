import Piconet.Proofs.Hop.Relevance
import Piconet.Proofs.Session.Step

/-!
# Masters that cannot be told apart

The access code and the hop sequence of a piconet are all that a session takes from
the address of its master, and both come from the low 28 bits.  A session may as
well follow the master whose address has nothing but these bits.  Every operation
then does the same, so sessions for masters whose addresses hop alike answer alike.
-/

namespace Piconet.Session

/-- The session as it would follow the address with nothing but the bits that it depends on. -/
def core (session : Session) : Session :=
  { session with sequence := session.sequence.core }

theorem new_core (address : Address) (map : Option ChannelMap) (settings : Settings) :
    (Session.new address map settings).core = Session.new address.core map settings := by
  rw [Session.new, Session.new, HopSequence.new_core]
  rfl

theorem correlator_core (session : Session) : session.core.correlator = session.correlator :=
  congrArg (Correlator.mk · session.settings.tolerance)
    session.sequence.address.hopsAlike_core.syncWord

theorem hopCommand_core (session : Session) (clock : UInt32) :
    session.core.hopCommand clock = session.hopCommand clock :=
  congrArg Command.setChannel (session.sequence.frequency_core clock)

theorem startCommands_core (session : Session) (native : UInt32) :
    session.core.startCommands native = session.startCommands native := by
  have settings : session.core.settings = session.settings := rfl
  rw [startCommands, startCommands, masterClock, masterClock, settings, hopCommand_core]

theorem setMap_core (session : Session) (map : ChannelMap) :
    session.core.setMap map = Prod.map core id (session.setMap map) := by
  have sequence : session.core.sequence = session.sequence.core := rfl
  rw [Session.setMap, Session.setMap, sequence, HopSequence.setMap_core]
  rfl

theorem lose_core (session : Session) : session.core.lose = session.lose.core := by
  have latest : session.core.latestClock = session.latestClock := rfl
  rw [lose, lose, latest, startCommands_core]
  rfl

theorem inert_core : Inert core where
  settings _ := rfl
  correlator := correlator_core
  loop _ := rfl
  rollover _ := rfl
  counted _ := rfl
  note _ _ := rfl
  miss session := by
    have once : session.core.missedOnce = session.missedOnce.core := rfl
    have asked : session.core.losesAt (session.core.misses + 1) =
        session.losesAt (session.misses + 1) := rfl
    rw [miss_eq, miss_eq, asked, once, lose_core]
    split
    · rfl
    · rfl
  credited _ := rfl
  adjusted _ _ _ := rfl

/-- An operation does the same whatever the address has above the low 28 bits. -/
theorem perform_core (session : Session) (operation : Operation) :
    session.core.perform operation = (session.perform operation).map (Prod.map core id) := by
  cases operation with
  | process capture => exact inert_core.perform_process session capture
  | hop clock =>
      rw [perform, perform, hopCommand_core]
      rfl
  | start native =>
      rw [perform, perform, startCommands_core]
      rfl
  | setMap map => exact perform_setMap_comm core (session.setMap_core map)
  | drain | clearMap | resetTrim => rfl

theorem run_core (session : Session) (operations : List Operation) :
    session.core.run operations = Prod.map core id <$> session.run operations :=
  run_of_perform_comm perform_core session operations

/-- What is seen of a run: its answers, and then the counts and the map in force. -/
def resultsOf (session : Session) (operations : List Operation) :
    Except Overflow (List Answer × Stats × Option ChannelMap) :=
  (session.run operations).map fun outcome => (outcome.2, outcome.1.stats, outcome.1.map)

theorem resultsOf_core (session : Session) (operations : List Operation) :
    session.core.resultsOf operations = session.resultsOf operations := by
  rw [resultsOf, resultsOf, run_core]
  cases session.run operations with
  | error overflow => rfl
  | ok outcome => rfl

theorem resultsOf_alike {first second : Address} (alike : first.HopsAlike second)
    (map : Option ChannelMap) (settings : Settings) (operations : List Operation) :
    (Session.new first map settings).resultsOf operations =
      (Session.new second map settings).resultsOf operations := by
  rw [← resultsOf_core, ← resultsOf_core (Session.new second map settings), new_core, new_core,
    alike.core]

end Piconet.Session
