import BayTrail.SecureFlash.Capsule

/-!
# Updates of secured flash

The handlers of `SecSMIFlash/SecSMIFlash.c` as functions on a state: `loadFwImage` and
`setFlUpdMethod`, which a caller reaches by software SMIs, and the functions that stand in the
place of `Write`, `Update` and `Erase` of the flash protocol. Pointers have 64 bits.
-/

namespace BayTrail.SecureFlash

open Lib (Bytes Mem peek poke rd leBytes)

/-! ## State -/

/-- What the driver keeps in SMRAM. `romLayout` is the embedded one, up to the area without size. -/
structure Data (Digest : Type) where
  pFwCapsule : Nat
  fsHandle : Nat
  hashTbl : HashTbl Digest
  romLayout : Option (List RomArea)

/-- Memory, the data of the driver, and the history of what `CapsuleValidate` has said, the last
call first. Nothing reads the history. -/
structure State (Digest : Type) extends Data Digest where
  mem : Mem
  validations : List (Option Capsule)

/-- The platform that the driver runs on. -/
structure Platform (Digest : Type) extends Services Digest where
  /-- `AmiValidateMemoryBuffer` -/
  validateMemoryBuffer : Nat → Nat → Bool
  smram : Nat → Bool
  /-- `gpFwCapsuleBuffer`, zero if there is none. -/
  buffer : Nat
  flashUpdate : Nat
  bbUpdate : Nat
  /-- The data of the driver after a byte has been stored at an address. -/
  storeByte : Nat → UInt8 → Data Digest → Data Digest

def flRecovery : Nat := 1
def flCapsule : Nat := 2
def flRuntime : Nat := 4

variable {Digest : Type} [DecidableEq Digest] (P : Platform Digest)

/-- The state behind `InSmmFunction`, where the layout has been found or not. -/
def initialState (layout : Option (List RomArea)) (m : Mem) : State Digest where
  pFwCapsule := P.buffer
  fsHandle := 0
  hashTbl := fun _ => .other 0xdbdbdbdb
  romLayout := layout
  mem := m
  validations := []

/-! ## `LoadFwImage` -/

/-- `FSHandle` and `pFwCapsule` are cleared. -/
def State.reset (s : State Digest) : State Digest := { s with fsHandle := 0, pFwCapsule := 0 }

/-- `LoadFwImage`, of the `FUNC_BLOCK` at an address. Its `ErrorCode` is written before the address
is validated. -/
def loadFwImage (s : State Digest) (p : Nat) : State Digest :=
  if P.buffer = 0 ∨ p = 0 then s
  else
    let s := { s with
      toData := P.storeByte (p + 16) 1 s.toData
      mem := poke s.mem (p + 16) [1] }
    if !P.validateMemoryBuffer p 24 then s
    else if !P.validateMemoryBuffer (rd s.mem 8 p) (rd s.mem 4 (p + 12)) then s
    else if capsuleImageSize < rd s.mem 4 (p + 8) + rd s.mem 4 (p + 12) then s
    else
      let m := poke s.mem (P.buffer + rd s.mem 4 (p + 8))
        (peek s.mem (rd s.mem 8 p) (rd s.mem 4 (p + 12)))
      let differ := peek m (P.buffer + rd m 4 (p + 8)) (rd m 4 (p + 12)) ≠
        peek m (rd m 8 p) (rd m 4 (p + 12))
      { s.reset with mem := poke m (p + 16) [if differ then 1 else 0] }

/-! ## `SetFlUpdMethod` -/

/-- What the variable services answer: whether `UpdateCapsule` can set its variable, the monotonic
counter, and whether `SetFlashUpdateVar` can set its variable. -/
structure Variables where
  capsuleSet : Bool
  counter : Option Nat
  flashUpdSet : Bool

/-- `ROMSection` and `FlashOpType` of a session block go with the policy. -/
def policyAllows (m : Mem) (p : Nat) : Bool :=
  if (rd m 4 (p + 1)).testBit 0 then rd m 1 p &&& P.bbUpdate ≠ 0
  else rd m 1 p &&& P.flashUpdate ≠ 0

/-- `SetFlashUpdateVar`; true if the variable has been set. -/
def setFlashUpdateVar (v : Variables) (m : Mem) (p : Nat) : Bool × Mem :=
  if rd m 1 p = flRecovery ∧ m (p + 5) = 0 then (false, m)
  else (v.flashUpdSet, poke m (p + 25) (leBytes 4 (v.counter.getD 0xffffffff)))

/-- `UpdateCapsule`; its `SupportUpdateCapsuleReset` is the first condition. -/
def updateCapsule (v : Variables) (m : Mem) (hdr : Nat) : Bool :=
  (P.flashUpdate &&& flCapsule ≠ 0 || P.bbUpdate &&& flCapsule ≠ 0) &&
    guidAt m hdr fwCapsuleGuid && v.capsuleSet

/-- The capsule that is to be validated is in the buffer, or where the caller has it if there is no
buffer. -/
def takeCapsule (s : State Digest) (p : Nat) : Option (State Digest) :=
  let s := { s with pFwCapsule := P.buffer }
  let mailbox := rd s.mem 8 (p + 5)
  let size := rd s.mem 4 (p + 21)
  if mailbox = 0 then some s
  else if !P.validateMemoryBuffer mailbox size then none
  else if P.buffer = 0 then some { s with pFwCapsule := mailbox }
  else if capsuleImageSize < size then none
  else some { s with mem := poke s.mem P.buffer (peek s.mem mailbox size) }

/-- The hashes of `n` blocks of the payload from block `k` on go to the table; false if one cannot
be computed. -/
def fillHashTbl (m : Mem) (payload : Nat) : Nat → Nat → HashTbl Digest → Bool × HashTbl Digest
  | 0, _, tbl => (true, tbl)
  | n + 1, k, tbl =>
    match P.sha256 (bytesAt m (payload + flashBlockSize * k) flashBlockSize) with
    | none => (false, tbl)
    | some d => fillHashTbl m payload n (k + 1) fun j => if j = k then .digest d else tbl j

/-- What is done with a capsule that has been validated: its hashes are computed for `FlRuntime`,
else the variables are set. True if it succeeds. -/
def acceptCapsule (v : Variables) (s : State Digest) (p hdr payload : Nat) :
    Bool × State Digest :=
  if rd s.mem 1 p = flRuntime then
    let filled := fillHashTbl P s.mem payload hashTblBlockCount 0 s.hashTbl
    (filled.1, { s with hashTbl := filled.2 })
  else
    let m := poke s.mem (p + 21) (leBytes 4 (imageSize s.mem hdr))
    if updateCapsule P v m hdr then
      let set := setFlashUpdateVar v m p
      (set.1, { s with mem := set.2 })
    else (false, { s with mem := m })

/-- The cases `FlCapsule` and `FlRuntime`. -/
def validateMethod (v : Variables) (s : State Digest) (p : Nat) : Bool × State Digest :=
  match takeCapsule P s p with
  | none => (false, s)
  | some s =>
    if s.pFwCapsule = 0 then (false, s)
    else
      let validated := capsuleValidate P.toServices s.mem s.pFwCapsule s.hashTbl
      let s := { s with
        hashTbl := validated.2
        validations := validated.1 :: s.validations }
      match validated.1 with
      | none => (false, s)
      | some c => acceptCapsule P v { s with pFwCapsule := c.payload } p c.hdr c.payload

/-- The switch over `FlashOpType`. -/
def runMethod (v : Variables) (s : State Digest) (p : Nat) : Bool × State Digest :=
  if rd s.mem 1 p = flCapsule ∨ rd s.mem 1 p = flRuntime then validateMethod P v s p
  else if rd s.mem 1 p = flRecovery then
    let set := setFlashUpdateVar v s.mem p
    (set.1, { s with mem := set.2 })
  else (false, s)

/-- `FSHandle` and `ErrorCode` of a session block. -/
def answer (m : Mem) (p handle : Nat) (error : UInt8) : Mem :=
  poke (poke m (p + 32) (leBytes 4 handle)) (p + 29) [error]

/-- The end of `SetFlUpdMethod`, where `FSHandle` is made of the table. -/
def finishMethod (s : State Digest) (p : Nat) : Bool → State Digest
  | true =>
    let handle := (s.hashTbl 0).firstWord P.toServices
    { s with fsHandle := handle, mem := answer s.mem p handle 0 }
  | false => { s.reset with mem := answer s.mem p 0 1 }

/-- `SetFlUpdMethod`, of the `FUNC_FLASH_SESSION_BLOCK` at an address. -/
def setFlUpdMethod (v : Variables) (s : State Digest) (p : Nat) : State Digest :=
  if !P.validateMemoryBuffer p 36 then s
  else
    let done := if policyAllows P s.mem p then runMethod P v s p else (false, s)
    finishMethod P done.2 p done.1

/-! ## Flash access -/

/-- `Area->Address`, which is made of the offset if it is not there. -/
def RomArea.start (a : RomArea) : Nat :=
  if a.address = 0 then flashMapStart + a.offset else a.address

def overlaps (flashAddress size : Nat) (a : RomArea) : Bool :=
  (a.start ≤ flashAddress && flashAddress < (a.start + a.size) % 2 ^ 64) ||
    (flashAddress ≤ a.start && a.start < (flashAddress + size) % 2 ^ 64)

/-- The loop over the embedded layout. -/
def writeProtected (layout : Option (List RomArea)) (flashAddress size : Nat) : Bool :=
  match layout with
  | none => true
  | some areas => areas.any fun a => overlaps flashAddress size a && a.signed

/-- The loop over the blocks, of which no more than `HashCounter` are looked at. -/
def checkPages (m : Mem) (tbl : HashTbl Digest) (limit : Nat) : Nat → Nat → Nat → Bool
  | 0, _, _ => true
  | n + 1, k, p =>
    if k < hashTblBlockCount then
      match P.sha256 (bytesAt m p flashBlockSize) with
      | none => false
      | some d =>
        if tbl k = .digest d then
          let p := (p + flashBlockSize) % 2 ^ 64
          if limit ≤ p then true else checkPages m tbl limit n (k + 1) p
        else false
    else true

/-- `BeforeSecureUpdate`: none if the range is write protected, else where the data is. -/
def beforeSecureUpdate (s : State Digest) (flashAddress size dataBuffer : Nat) : Option Nat :=
  if writeProtected s.romLayout flashAddress size then
    if P.flashUpdate &&& flRuntime = 0 ∨ s.pFwCapsule = 0 ∨ s.fsHandle = 0 ∨
        s.fsHandle ≠ (s.hashTbl 0).firstWord P.toServices then none
    else
      let offset := (flashAddress + 2 ^ 64 - flashMapStart) % 2 ^ 64
      let pageCount := offset / flashBlockSize
      let buffAddr := (s.pFwCapsule + offset) % 2 ^ 64
      if checkPages P s.mem s.hashTbl ((buffAddr + size) % 2 ^ 64) 2 pageCount
          ((s.pFwCapsule + flashBlockSize * pageCount) % 2 ^ 64) then
        some buffAddr
      else none
  else some dataBuffer

/-- `SecureFlashWrite`: the bytes that are passed to the flash, if any are; so is
`SecureFlashUpdate`. -/
def secureFlashWrite (s : State Digest) (flashAddress size dataBuffer : Nat) : Option Bytes :=
  (beforeSecureUpdate P s flashAddress size dataBuffer).map fun p =>
    bytesAt s.mem p size

def secureFlashUpdate (s : State Digest) (flashAddress size dataBuffer : Nat) : Option Bytes :=
  (beforeSecureUpdate P s flashAddress size dataBuffer).map fun p =>
    bytesAt s.mem p size

/-- `SecureFlashErase`: whether the flash erases. -/
def secureFlashErase (s : State Digest) (flashAddress size : Nat) : Bool :=
  (beforeSecureUpdate P s flashAddress size 0).isSome

/-! ## Runs -/

/-- What happens between two accesses to the flash. -/
inductive Event where
  | memory (m : Mem)
  | loadFwImage (p : Nat)
  | setFlUpdMethod (v : Variables) (p : Nat)

/-- Memory changes outside SMRAM only. -/
def step (s : State Digest) : Event → State Digest
  | .memory m => { s with mem := fun a => if P.smram a then s.mem a else m a }
  | .loadFwImage p => loadFwImage P s p
  | .setFlUpdMethod v p => setFlUpdMethod P v s p

/-- The states that are reached by events which meet a condition. -/
inductive Run (cond : State Digest → Event → Prop) (layout : Option (List RomArea)) :
    State Digest → Prop
  | start (m : Mem) : Run cond layout (initialState P layout m)
  | step {s : State Digest} {e : Event} :
    Run cond layout s → cond s e → Run cond layout (step P s e)

end BayTrail.SecureFlash
