import Piconet.Radio.Fault

/-!
# Radios

The boards that this library drives, and an open one.  A board is known by the
numbers of its vendor and product; its firmware reports the version of the
requests it understands.
-/

namespace Piconet

namespace Radio

inductive Model where
  | zero
  | one
  | badge
  deriving DecidableEq, Repr

namespace Model

def ofIds? (vendor product : UInt16) : Option Model :=
  if vendor = 0x1d50 ∧ product = 0x6000 then some zero
  else if vendor = 0x1d50 ∧ product = 0x6002 then some one
  else if vendor = 0xffff ∧ product = 0x0004 then some badge
  else none

def text : Model → String
  | zero => "Ubertooth Zero"
  | one => "Ubertooth One"
  | badge => "ToorCon 13 badge"

def details : Model → String
  | zero => "Zero"
  | one => "One"
  | badge => "ToorCon13"

end Model

end Radio

structure Radio where
  model : Radio.Model
  /-- The version of its requests, as a number in binary-coded decimal. -/
  version : UInt16
  /-- The receive requests that have not completed. -/
  pending : Nat := 0
  deriving DecidableEq, Repr

namespace Radio

/-- The oldest version that knows every request made here. -/
def requiredVersion : UInt16 := 0x0102

def checkVersion (radio : Radio) : Except Fault Unit :=
  if radio.version < requiredVersion then .error (.outdated requiredVersion radio.version)
  else .ok ()

end Radio

end Piconet
