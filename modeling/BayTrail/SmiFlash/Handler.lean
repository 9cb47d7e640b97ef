import BayTrail.SecureFlash.Update
import BayTrail.Lib.Access

/-!
# The flash SMI handlers

`SMIFlashSMIHandler` of `SmiFlash.c` and the handler of `SecSMIFlash.c`, as what they do to the
memory that a caller can name: the ranges they check, and their stores and copies, in order. The
data of the drivers themselves is not in this memory. Of the eLink lists only the one behind the
handler gets an address: OEM activation and the board (`CrbSmiFlashHook.c`) hook on it.
-/

namespace BayTrail.SmiFlash

open Lib (Mem peek poke rd leBytes Access runLog)
open SecureFlash

def numberOfBlocks : Nat := flashSize / flashBlockSize

/-- `sizeof(INFO_BLOCK)`; a `BLOCK_DESC` has nine bytes. -/
def infoBlockSize : Nat := 16 + 9 * numberOfBlocks

/-- `sizeof(FUNC_BLOCK)` -/
def funcBlockSize : Nat := 24

/-- A `ROM_AREA` of the layout that `PrepareRomLayout` has made, as far as it is used. -/
structure LayoutArea where
  offset : Nat
  size : Nat
  type : UInt8

/-- The blocks that start from `base` on and below `stop`. -/
structure BlockRange where
  base : Nat
  stop : Nat

/-- What `SmiFlash.c` finds on its board. -/
structure Board where
  romLayout : List LayoutArea
  numberOfNcb : Nat
  /-- Whether both pools for the block numbers can be allocated. -/
  pools : Bool
  projectTagLength : UInt8
  flashPartNumber : Option (Fin 48 → UInt8)
  oemActivationBlock : BlockRange
  crbPreBb : BlockRange
  crbMicrocode : BlockRange
  flashError : Bool

/-! ## `GetFlashInfo` -/

def LayoutArea.startBlock (a : LayoutArea) : Nat := a.offset / flashBlockSize % 2 ^ 16

def LayoutArea.endBlock (a : LayoutArea) : Nat :=
  (a.startBlock + a.size / flashBlockSize + 65535) % 2 ^ 16

/-- The type of a block that is in the layout. -/
def Board.typeInLayout (B : Board) (index : Nat) : Option UInt8 :=
  (B.romLayout.find? fun a => a.startBlock ≤ index && index ≤ a.endBlock).map LayoutArea.type

/-- The types of `n` blocks from a block on. Non critical blocks that follow each other have the
same type. -/
def Board.blockTypes (B : Board) : Nat → Nat → UInt8 → Nat → List UInt8
  | 0, _, _, _ => []
  | n + 1, index, ncbType, lastNcb =>
    match B.typeInLayout index with
    | some type => type :: B.blockTypes n (index + 1) ncbType lastNcb
    | none =>
      let type := if lastNcb + 1 ≠ index then ncbType + 1 else ncbType
      type :: B.blockTypes n (index + 1) type index

/-- The descriptors of all blocks. -/
def blockStores (B : Board) (p : Nat) : List Access :=
  (B.blockTypes numberOfBlocks 0 (0x80 + UInt8.ofNat B.numberOfNcb - 1) 0xFFFF).zipIdx.map
    fun (type, i) => .store (p + 16 + 9 * i)
      (leBytes 4 (i * flashBlockSize) ++ leBytes 4 flashBlockSize ++ [type])

/-- The first condition on `Length` behind the blocks, at `p + infoBlockSize`. -/
def tagFits (length p : Nat) : Bool :=
  (p + infoBlockSize + 5) % 2 ^ 64 < (p + length) % 2 ^ 64

/-- The signature `$BPT`, the length of the project tag and `V`. -/
def tagStores (B : Board) (length p : Nat) : List Access :=
  if tagFits length p then
    [.store (p + infoBlockSize) [0x24, 0x42, 0x50, 0x54],
      .store (p + infoBlockSize + 4) [B.projectTagLength],
      .store (p + infoBlockSize + 5) [0x56]]
  else []

/-- Where the flash part is described. -/
def partAddress (length p : Nat) : Nat :=
  p + infoBlockSize + (if tagFits length p then 6 else 1)

def partFits (length p : Nat) : Bool :=
  (partAddress length p + 48 + 8) % 2 ^ 64 < (p + length) % 2 ^ 64

/-- `GetFlashPartInfomation`: the signature `$FPS`, a length and the part number. -/
def partStores (B : Board) (length p : Nat) : List Access :=
  if partFits length p then
    match B.flashPartNumber with
    | none => []
    | some part =>
      [.store (partAddress length p) [0x24, 0x46, 0x50, 0x53],
        .store (partAddress length p + 4) (leBytes 4 48),
        .store (partAddress length p + 8) (List.ofFn part)]
  else []

/-- The header without `Length`, which is not written. -/
def headerStores (p : Nat) : List Access :=
  [.store (p + 5) [11], .store (p + 4) [0], .store (p + 8) (leBytes 4 0),
    .store (p + 12) (leBytes 4 0), .store (p + 6) (leBytes 2 numberOfBlocks)]

/-- Whether the blocks fit into the buffer, by its length. -/
def blocksFit (length : Nat) : Bool := 9 * numberOfBlocks ≤ (length + 2 ^ 32 - 16) % 2 ^ 32

def getFlashInfo (B : Board) (m : Mem) (p : Nat) : List Access :=
  let length := rd m 4 p
  headerStores p ++
    if !blocksFit length then [.store (p + 4) [1]]
    else if B.pools then
      blockStores B p ++ tagStores B length p ++ partStores B length p
    else []

/-- A hook on the list behind the handler: each block gets the type of the ranges that it starts in. -/
def updateBlockTypeId (types : List (BlockRange × UInt8)) (m : Mem) (p : Nat) : List Access :=
  (List.range (rd m 2 (p + 6))).flatMap fun i => types.filterMap fun t =>
    if t.1.base ≤ rd m 4 (p + 16 + 9 * i) ∧ rd m 4 (p + 16 + 9 * i) < t.1.stop then
      some (.store (p + 16 + 9 * i + 8) [t.2])
    else none

def oemActivationUpdateBlockTypeId (B : Board) : Mem → Nat → List Access :=
  updateBlockTypeId [(B.oemActivationBlock, 0x4A)]

def crbUpdateBlockTypeId (B : Board) : Mem → Nat → List Access :=
  updateBlockTypeId [(B.crbPreBb, 0), (B.crbMicrocode, 1)]

/-- The hooks on the list, one after the other. -/
def endHandlerList (B : Board) (m : Mem) (p : Nat) : List Access :=
  let log := oemActivationUpdateBlockTypeId B m p
  log ++ crbUpdateBlockTypeId B (runLog m log) p

/-! ## Flash access -/

section Handlers

variable {Digest : Type} (P : Platform Digest) (B : Board)

/-- `ErrorCode` of the `FUNC_BLOCK` behind an access to the flash. -/
def errorStore (p : Nat) : Access := .store (p + 16) [if B.flashError then 1 else 0]

def blockAddr (m : Mem) (p : Nat) : Nat := rd m 4 (p + 8)
def blockSize (m : Mem) (p : Nat) : Nat := rd m 4 (p + 12)
def bufAddr (m : Mem) (p : Nat) : Nat := rd m 8 p

/-- The address in the flash map, of 32 bits. -/
def flashAddr (m : Mem) (p : Nat) : Nat := (blockAddr m p + flashMapStart) % 2 ^ 32

def eraseFlash (m : Mem) (p : Nat) : List Access :=
  let address := flashAddr m p / flashBlockSize * flashBlockSize
  if P.validateMemoryBuffer address flashBlockSize then
    [.checked address flashBlockSize, .device address flashBlockSize, errorStore B p]
  else []

/-- Both ranges of `ReadFlash` and `WriteFlash` are checked; then what comes behind. -/
def checkBoth (m : Mem) (p : Nat) (log : List Access) : List Access :=
  if P.validateMemoryBuffer (flashAddr m p) (blockSize m p) then
    .checked (flashAddr m p) (blockSize m p) ::
      if P.validateMemoryBuffer (bufAddr m p) (blockSize m p) then
        .checked (bufAddr m p) (blockSize m p) :: log
      else []
  else []

def readFlash (m : Mem) (p : Nat) : List Access :=
  checkBoth P m p [.copy (bufAddr m p) (flashAddr m p) (blockSize m p), errorStore B p]

def writeFlash (m : Mem) (p : Nat) : List Access :=
  checkBoth P m p [.device (flashAddr m p) (blockSize m p), errorStore B p]

/-- The switch over the commands with a `FUNC_BLOCK`; two of them only turn writing to the flash on
and off. -/
def flashCommand (m : Mem) (data p : Nat) : List Access :=
  if data = 0x22 then eraseFlash P B m p
  else if data = 0x21 then readFlash P B m p
  else if data = 0x23 then writeFlash P B m p
  else []

/-- `SMIFlashSMIHandler` for a command with a `FUNC_BLOCK`, the `ErrorCode` of which is cleared
before and must still be so. -/
def funcBlockHandler (m : Mem) (data p : Nat) : List Access :=
  if P.validateMemoryBuffer p funcBlockSize then
    let m := poke m (p + 16) [0]
    .checked p funcBlockSize :: .store (p + 16) [0] ::
      if m (p + 16) = 0 then flashCommand P B m data p else []
  else []

/-- `SMIFlashSMIHandler` for `SMIFLASH_GET_FLASH_INFO`, with the hooks behind it. -/
def infoBlockHandler (m : Mem) (p : Nat) : List Access :=
  if P.validateMemoryBuffer p infoBlockSize then
    .checked p infoBlockSize ::
      (getFlashInfo B m p ++ endHandlerList B (runLog m (getFlashInfo B m p)) p)
  else []

/-- `SMIFlashSMIHandler` -/
def smiFlashHandler (m : Mem) (data p : Nat) : List Access :=
  if data = 0x25 then infoBlockHandler P B m p else funcBlockHandler P B m data p

/-! ## Secure flash -/

/-- `GetFlUpdPolicy` -/
def getFlUpdPolicy (p : Nat) : List Access :=
  if P.validateMemoryBuffer p 259 then
    [.checked p 259, .store p [UInt8.ofNat P.flashUpdate, UInt8.ofNat P.bbUpdate],
      .store (p + 2) (List.replicate 256 0xFF), .store (p + 2) (P.key.take 256),
      .store (p + 258) [0]]
  else []

/-- The accesses of `loadFwImage`. -/
def loadFwImageLog (m : Mem) (p : Nat) : List Access :=
  if P.buffer = 0 ∨ p = 0 then []
  else
    let m := poke m (p + 16) [1]
    .store (p + 16) [1] ::
      if !P.validateMemoryBuffer p funcBlockSize then []
      else .checked p funcBlockSize ::
        if !P.validateMemoryBuffer (bufAddr m p) (blockSize m p) then []
        else .checked (bufAddr m p) (blockSize m p) ::
          if capsuleImageSize < blockAddr m p + blockSize m p then []
          else
            let m' := poke m (P.buffer + blockAddr m p) (peek m (bufAddr m p) (blockSize m p))
            let differ := peek m' (P.buffer + blockAddr m' p) (blockSize m' p) ≠
              peek m' (bufAddr m' p) (blockSize m' p)
            [.copy (P.buffer + blockAddr m p) (bufAddr m p) (blockSize m p),
              .store (p + 16) [if differ then 1 else 0]]

def takeCapsuleLog (m : Mem) (p : Nat) : List Access :=
  let mailbox := rd m 8 (p + 5)
  let size := rd m 4 (p + 21)
  if mailbox = 0 then []
  else if !P.validateMemoryBuffer mailbox size then []
  else .checked mailbox size ::
    if P.buffer = 0 then []
    else if capsuleImageSize < size then []
    else [.copy P.buffer mailbox size]

def setFlashUpdateVarLog (v : Variables) (m : Mem) (p : Nat) : List Access :=
  if rd m 1 p = flRecovery ∧ m (p + 5) = 0 then []
  else [.store (p + 25) (leBytes 4 (v.counter.getD 0xffffffff))]

/-- `CapsuleImageSize` of the header goes to the session block. -/
def acceptCapsuleLog (v : Variables) (m : Mem) (p hdr : Nat) : List Access :=
  if rd m 1 p = flRuntime then []
  else
    let m := poke m (p + 21) (peek m (hdr + 24) 4)
    .copy (p + 21) (hdr + 24) 4 ::
      if updateCapsule P v m hdr then setFlashUpdateVarLog v m p else []

/-- The accesses behind `takeCapsule`. -/
def validatedLog (v : Variables) (s : State Digest) (p : Nat) : List Access :=
  if s.pFwCapsule = 0 then []
  else match (capsuleValidate P.toServices s.mem s.pFwCapsule s.hashTbl).1 with
    | none => []
    | some c => acceptCapsuleLog P v s.mem p c.hdr

def validateMethodLog (v : Variables) (s : State Digest) (p : Nat) : List Access :=
  takeCapsuleLog P s.mem p ++
    match takeCapsule P s p with
    | none => []
    | some s => validatedLog P v s p

def runMethodLog (v : Variables) (s : State Digest) (p : Nat) : List Access :=
  if rd s.mem 1 p = flCapsule ∨ rd s.mem 1 p = flRuntime then validateMethodLog P v s p
  else if rd s.mem 1 p = flRecovery then setFlashUpdateVarLog v s.mem p
  else []

/-- `FSHandle` and `ErrorCode`. -/
def answerLog (p handle : Nat) (error : UInt8) : List Access :=
  [.store (p + 32) (leBytes 4 handle), .store (p + 29) [error]]

/-- The accesses of `setFlUpdMethod`. -/
def setFlUpdMethodLog (v : Variables) (s : State Digest) (p : Nat) : List Access :=
  if !P.validateMemoryBuffer p 36 then []
  else
    let done := if policyAllows P s.mem p then runMethod P v s p else (false, s)
    .checked p 36 :: ((if policyAllows P s.mem p then runMethodLog P v s p else []) ++
      if done.1 then answerLog p ((done.2.hashTbl 0).firstWord P.toServices) 0
      else answerLog p 0 1)

/-- `SecSMIFlashSMIHandler`, and the handler of the other commands. -/
def smi (v : Variables) (s : State Digest) (data p : Nat) : List Access :=
  if data = 0x1d then loadFwImageLog P s.mem p
  else if data = 0x1e then getFlUpdPolicy P p
  else if data = 0x1f then setFlUpdMethodLog P v s p
  else smiFlashHandler P B s.mem data p

end Handlers

end BayTrail.SmiFlash
