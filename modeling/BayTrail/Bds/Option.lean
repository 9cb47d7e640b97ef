import Mathlib.Data.Nat.Notation

/-!
# Boot options

The elements of the boot option list, as in `BootOptions.h`.
-/

namespace BayTrail.Bds

def LOAD_OPTION_ACTIVE : UInt32 := 1
def INVALID_BBS_INDEX : UInt16 := 0xFFFF
def INVALID_BOOT_OPTION_NUMBER : UInt16 := 0xFFFF
def LOWEST_BOOT_OPTION_PRIORITY : UInt32 := 0xFFFFFFFF
def UNASSIGNED_HIGHEST_TAG : UInt32 := 0xFFFFFFFF

/-- `DEFAULT_PRIORITY_INCREMENT`. -/
def defaultPriorityIncrement : UInt32 := 0x100

/-- `GetNextBootOptionPriority`. -/
def getNextBootOptionPriority (priority : UInt32) : UInt32 := priority + defaultPriorityIncrement

/-- `BOOT_OPTION`. A handle and an entry of the BBS table are pointers. -/
structure BootOption where
  attributes : UInt32
  description : Option (List UInt8)
  filePathList : Option (List UInt8)
  filePathListLength : Nat
  optionalData : List UInt8
  bootOptionNumber : UInt16
  priority : UInt32
  tag : UInt32
  deviceHandle : Option Nat
  bbsIndex : UInt16
  bbsEntry : Option Nat
  fwBootOption : Bool
  groupHeader : Bool
  deriving DecidableEq

/-- `BootOptionTemplate` of `CreateBootOption`. -/
def bootOptionTemplate : BootOption where
  attributes := LOAD_OPTION_ACTIVE
  description := none
  filePathList := none
  filePathListLength := 0
  optionalData := []
  bootOptionNumber := INVALID_BOOT_OPTION_NUMBER
  priority := LOWEST_BOOT_OPTION_PRIORITY
  tag := UNASSIGNED_HIGHEST_TAG
  deviceHandle := none
  bbsIndex := INVALID_BBS_INDEX
  bbsEntry := none
  fwBootOption := false
  groupHeader := false

end BayTrail.Bds
