import Piconet.CommandLine.Run
import Piconet.Proofs.CommandLine.Script
import Piconet.Proofs.Session.Namesake

/-!
# What a table of hops shows

A table counts its clock in a word of 32 bits and clears the bits that hopping does
not depend on before it selects a channel.  The channel is that of the clock with all
its bits.
-/

namespace Piconet.CommandLine

namespace HopTable

/-- The clock of a slot has the bits that hopping depends on of the clock counted up to it. -/
theorem clockOf_eq {start clock : UInt32} {slot : Nat}
    (counted : clock.toNat = (start.toNat + 2 * slot) % 2 ^ 32) :
    clockOf start slot = clock &&& HopSequence.clockBits := by
  have two : (2 : UInt32).toNat = 2 := rfl
  have sum : start + 2 * UInt32.ofNat slot = clock := by
    apply UInt32.toNat_inj.1
    rw [counted, UInt32.toNat_add, UInt32.toNat_mul, two, UInt32.toNat_ofNat']
    omega
  rw [clockOf, sum]
  rfl

/-- Clearing bits of the clock that hopping does not depend on leaves the channel. -/
theorem channel_clockOf (sequence : HopSequence) {start clock : UInt32} {slot : Nat}
    (counted : clock.toNat = (start.toNat + 2 * slot) % 2 ^ 32) :
    sequence.channel (clockOf start slot) = sequence.channel clock := by
  rw [clockOf_eq counted]
  refine HopSequence.channel_of_alike rfl rfl ?_
  rw [UInt32.and_assoc, UInt32.and_self]

theorem line_clockOf (sequence : HopSequence) {start clock : UInt32} {slot : Nat}
    (counted : clock.toNat = (start.toNat + 2 * slot) % 2 ^ 32) :
    line sequence (clockOf start slot) =
      "clk=" ++ String.ofList (Text.Hex.ofNat 7 (clockOf start slot).toNat) ++
      " ch=" ++ Text.Decimal.padded 2 (sequence.channel clock).toNat ++
      " freq=" ++ toString (sequence.frequency clock) ++ " MHz" := by
  rw [line, HopSequence.frequency, HopSequence.frequency, channel_clockOf sequence counted]

def rows (options : HopOptions) (sequence : HopSequence) : List String :=
  (List.range options.count.toNat).map fun slot => line sequence (clockOf options.clock slot)

theorem getElem?_rows (options : HopOptions) (sequence : HopSequence) {slot : Nat}
    (inside : slot < options.count.toNat) {clock : UInt32}
    (counted : clock.toNat = (options.clock.toNat + 2 * slot) % 2 ^ 32) :
    (rows options sequence)[slot]? = some (
      "clk=" ++ String.ofList (Text.Hex.ofNat 7 (clockOf options.clock slot).toNat) ++
      " ch=" ++ Text.Decimal.padded 2 (sequence.channel clock).toNat ++
      " freq=" ++ toString (sequence.frequency clock) ++ " MHz") := by
  rw [rows, List.getElem?_map, List.getElem?_range inside, Option.map_some,
    line_clockOf sequence counted]

theorem script_run {options : HopOptions} {sequence : HopSequence}
    (made : HopTable.sequence options = .ok sequence) (terminal : Terminal) :
    (script options).run terminal = (.ok (), terminal.advanced (lines options sequence) []) := by
  rw [script, made]
  exact Script.forM_print_run _ _

end HopTable

theorem printed_of_hop {arguments : List String} {options : HopOptions}
    (asked : Invocation.parse? arguments = some (.hop options)) {sequence : HopSequence}
    (made : HopTable.sequence options = .ok sequence) (surroundings : Surroundings) :
    (run surroundings arguments).printed = HopTable.lines options sequence := by
  rw [run, asked]
  dsimp only
  rw [Invocation.script, HopTable.script_run made]
  exact Terminal.printed_advanced _ _ _

/--
Hopping depends on the low 28 bits of an address and on bits 1 to 27 of a clock.
Addresses and clocks that agree there select the same channel under every map;
sessions for the two addresses come to the same results, whatever is asked of them;
and a table, whichever is asked for and also by a command line, shows in each row the
channel of the clock counted up without clearing any bit.
-/
theorem hopping_depends_on_low_bits {first second : Address} (alike : first.HopsAlike second) :
    (∀ (left right : HopSequence) (clock later : UInt32),
      left.address = first → right.address = second → left.map = right.map →
      clock &&& 0x0ffffffe = later &&& 0x0ffffffe →
        left.channel clock = right.channel later) ∧
    (∀ map settings operations,
      (Session.new first map settings).resultsOf operations =
        (Session.new second map settings).resultsOf operations) ∧
    ∀ options sequence, HopTable.sequence options = .ok sequence →
      ∃ rows, rows.length = options.count.toNat ∧
        (∀ terminal, (HopTable.script options).run terminal =
          (.ok (), terminal.advanced (HopTable.heading sequence :: rows) [])) ∧
        (∀ surroundings arguments, Invocation.parse? arguments = some (.hop options) →
          (run surroundings arguments).printed = HopTable.heading sequence :: rows) ∧
        ∀ slot < options.count.toNat, ∀ clock : UInt32,
          clock.toNat = (options.clock.toNat + 2 * slot) % 2 ^ 32 →
          rows[slot]? = some (
            "clk=" ++ String.ofList (Text.Hex.ofNat 7 (HopTable.clockOf options.clock slot).toNat) ++
            " ch=" ++ Text.Decimal.padded 2 (sequence.channel clock).toNat ++
            " freq=" ++ toString (sequence.frequency clock) ++ " MHz") := by
  refine ⟨?_, fun map settings => Session.resultsOf_alike alike map settings, ?_⟩
  · rintro left right clock later rfl rfl maps clocks
    exact HopSequence.channel_of_alike maps alike clocks
  · intro options sequence made
    refine ⟨HopTable.rows options sequence, ?_, fun terminal => HopTable.script_run made terminal,
      fun surroundings arguments asked => printed_of_hop asked made surroundings,
      fun slot inside clock => HopTable.getElem?_rows options sequence inside⟩
    rw [HopTable.rows, List.length_map, List.length_range]

/-- Two masters that differ above the low 28 bits, and a table whose clock runs over. -/
theorem hopping_depends_on_low_bits_wrapped :
    let first := Address.ofNat 0x2244669e8b33
    let second := Address.ofNat 0x69e8b33
    let settings : Settings := { clockOffset := some 5 }
    first ≠ second ∧ first.HopsAlike second ∧
      (HopSequence.unrestricted first).channel 0xf0000003 =
        (HopSequence.unrestricted second).channel 2 ∧
      (Session.new first none settings).resultsOf [.start 4] =
        .ok ([.commands [.setChannel 2435, .startHopping 5 0]], {}, none) ∧
      (run {} ["hop", "-a", "22:44:66:9e:8b:33", "-c", "4294967294", "-n", "2"]).printed[2]? =
        some "clk=0000000 ch=49 freq=2451 MHz" := by
  intro first second settings
  have alike : first.HopsAlike second := by decide
  obtain ⟨channels, sessions, tables⟩ := hopping_depends_on_low_bits alike
  refine ⟨by decide, alike, channels _ _ _ _ rfl rfl rfl (by decide), ?_, ?_⟩
  · have tuned : (HopSequence.unrestricted second).frequency (Clock.master 4 5) = 2435 := by
      decide +kernel
    rw [sessions, ← tuned]
    rfl
  · let options : HopOptions := { address := first, clock := 4294967294, count := 2, map := none }
    have asked : Invocation.parse? ["hop", "-a", "22:44:66:9e:8b:33", "-c", "4294967294",
        "-n", "2"] = some (.hop options) := by decide +kernel
    obtain ⟨rows, -, -, printed, shows⟩ := tables options _ rfl
    rw [printed {} _ asked]
    exact (shows 1 (by decide) 0 (by decide)).trans (by decide +kernel)

end Piconet.CommandLine
