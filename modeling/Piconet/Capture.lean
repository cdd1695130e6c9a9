import Piconet.ByteOrder
import Piconet.ChannelMap
import Piconet.Symbols

/-!
# Captures

The radio hands over records of 64 bytes.  A header of fourteen bytes says what
was captured, where, when and how loud; two of its bytes are reserved and are
written as zero.  The other fifty hold 400 symbols, packed eight to a byte.
-/

namespace Piconet

inductive CaptureKind where
  | basicRate
  | lowEnergy
  | message
  | keepAlive
  | spectrum
  | lowEnergyPromiscuous
  | ego
  | unknown (code : UInt8)
  deriving DecidableEq, Repr

namespace CaptureKind

def ofCode (code : UInt8) : CaptureKind :=
  if code = 0 then basicRate
  else if code = 1 then lowEnergy
  else if code = 2 then message
  else if code = 3 then keepAlive
  else if code = 4 then spectrum
  else if code = 5 then lowEnergyPromiscuous
  else if code = 6 then ego
  else unknown code

def code : CaptureKind → UInt8
  | basicRate => 0
  | lowEnergy => 1
  | message => 2
  | keepAlive => 3
  | spectrum => 4
  | lowEnergyPromiscuous => 5
  | ego => 6
  | unknown code => code

def text : CaptureKind → String
  | basicRate => "BR"
  | lowEnergy => "LE"
  | message => "message"
  | keepAlive => "keep-alive"
  | spectrum => "spectrum analyzer"
  | lowEnergyPromiscuous => "LE promiscuous"
  | ego => "E-GO"
  | unknown code => "unknown (0x" ++ String.ofList (Text.Hex.ofNat 1 code.toNat) ++ ")"

@[simp] theorem code_ofCode (code : UInt8) : (ofCode code).code = code := by
  unfold ofCode
  repeat' split
  all_goals simp_all [CaptureKind.code]

end CaptureKind

structure Capture where
  kind : CaptureKind
  status : UInt8
  channel : UInt8
  /-- Bits 27 to 20 of the native clock. -/
  clockHigh : UInt8
  /-- The counter of 100 nanoseconds at the first symbol. -/
  counter : UInt32
  peak : Int8
  floor : Int8
  average : Int8
  /-- The number of level readings; with none the levels mean nothing. -/
  readings : UInt8
  data : Vector UInt8 50
  deriving DecidableEq, Repr

namespace Capture

def recordLength : Nat := 64

/-- The status bit of a record that is not worth looking at. -/
def discardFlag : UInt8 := 0x20

def ofBytes? : List UInt8 → Option Capture
  | kind :: status :: channel :: clockHigh :: first :: second :: third :: fourth ::
      peak :: floor :: average :: readings :: _ :: _ :: data =>
      if exact : data.length = 50 then
        some {
          kind := .ofCode kind
          status
          channel
          clockHigh
          counter := UInt32.ofNat (ByteOrder.ofLittle [first, second, third, fourth])
          peak := peak.toInt8
          floor := floor.toInt8
          average := average.toInt8
          readings
          data := ⟨data.toArray, exact⟩ }
      else none
  | _ => none

def toBytes (capture : Capture) : List UInt8 :=
  [capture.kind.code, capture.status, capture.channel, capture.clockHigh] ++
    ByteOrder.little 4 capture.counter.toNat ++
    [capture.peak.toUInt8, capture.floor.toUInt8, capture.average.toUInt8,
     capture.readings, 0, 0] ++
    capture.data.toList

@[simp] theorem length_toBytes (capture : Capture) :
    capture.toBytes.length = recordLength := by
  simp [toBytes, recordLength]

/-- Bytes cut into pieces of one record each; the last piece may be shorter. -/
def pieces (bytes : List UInt8) : List (List UInt8) :=
  match bytes with
  | [] => []
  | byte :: rest =>
      (byte :: rest).take recordLength :: pieces ((byte :: rest).drop recordLength)
termination_by bytes.length
decreasing_by
  simp only [List.length_drop, List.length_cons, recordLength]
  omega

def ofTransfer? (bytes : List UInt8) : Option (List Capture) :=
  if bytes.length % recordLength = 0 then (pieces bytes).mapM ofBytes? else none

def isDiscarded (capture : Capture) : Bool :=
  capture.status &&& discardFlag != 0

/-- Whether an access code may be looked for in the record. -/
def isBasicRate (capture : Capture) : Bool :=
  capture.kind == .basicRate && !capture.isDiscarded &&
    decide (capture.channel.toNat < channelCount)

def symbols (capture : Capture) : List UInt8 :=
  Symbols.unpack capture.data.toList

@[simp] theorem length_symbols (capture : Capture) : capture.symbols.length = 400 := by
  simp [symbols]

end Capture

end Piconet
