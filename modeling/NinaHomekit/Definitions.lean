import Mathlib

/-!
# Constants, faults and the messages of the firmware

The constants of `definitions.h`, `CommandHandler.cpp` and `sketch.ino.cpp`, the ways
a handler can leave defined behaviour, and the message the firmware hands to the
module bus.

* `Fault` — what ends a run: an index past an array, a null or freed pointer, a
  division by zero, an `ESP_MFI_ASSERT` that blocks, an allocation of negative size.
* `UartMsg` — one entry of the outgoing queue: a port and the bytes of the payload.
* `CStr` — a C string, without its terminating NUL.
-/

namespace NinaHomekit

/-! ## `definitions.h` -/

def deviceNameLength : Nat := 32
def mqttHostLength : Nat := 21
def maxModuleNum : Nat := 20
def maxCurrent : Nat := 1500

def modulesStatePin : UInt8 := 9

def cmdReqAdr : UInt8 := 0x41
def cmdLoadModule : UInt8 := 0x42
def cmdDoModule : UInt8 := 0x44
def cmdReqData : UInt8 := 0x45
def cmdHi : UInt8 := 0x48
def cmdInitModule : UInt8 := 0x49
def cmdLinkModule : UInt8 := 0x4C
def cmdResetModule : UInt8 := 0x52
def cmdUpdateData : UInt8 := 0x55

def doTurnOn : UInt8 := 0x6E
def doTurnOff : UInt8 := 0x66

def moduleSwitchState : UInt8 := 0x61
def moduleCurrent : UInt8 := 0x62
def moduleMcub : UInt8 := 0x63

/-- `SPI_BUFFER_LEN`, which is `SPI_MAX_DMA_LEN` of ESP-IDF. -/
def spiBufferLen : Nat := 4092

/-! ## Faults -/

/-- How a handler can leave the behaviour the language defines. -/
inductive Fault where
  /-- An array access past the end, at this index. -/
  | outOfBounds (index : Nat)
  /-- A null pointer dereferenced. -/
  | nullDeref
  /-- A pointer to a freed object dereferenced. -/
  | freedDeref
  /-- An integer divided by zero. -/
  | divByZero
  /-- A failed `ESP_MFI_ASSERT`, which loops for ever. -/
  | assertBlock
  /-- A `double` converted to an `int` that cannot hold it. -/
  | badConversion
  /-- `new` of an array too short for its initialiser. -/
  | badAlloc
  deriving DecidableEq, Repr

/-! ## Messages -/

/-- A C string, without its terminating NUL. -/
abbrev CStr := List UInt8

/-- What `queue.push` is given: the port and the bytes of the array `p`.  Its `length`
argument is at every call the size of that array. -/
structure UartMsg where
  port : Nat
  payload : List UInt8
  deriving DecidableEq, Repr, Inhabited

/-- `pack->length`. -/
def UartMsg.length (m : UartMsg) : Nat := m.payload.length

end NinaHomekit
