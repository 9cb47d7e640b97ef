import BayTrail.SecureFlash.Revision

/-!
# What validation touches

`CapsuleValidate` once more, now with each access to the buffer of the capsule, each write to the table
that is shared with the hashes and each length that is a difference: it fails where an access is outside
or a difference is negative. The buffer has the `FWCAPSULE_IMAGE_SIZE` bytes that are allocated for it.
-/

namespace BayTrail.SecureFlash.Checked

open Lib (Mem peek rd Next)
open Lib.Run (require)

variable {Digest : Type} (S : Services Digest) (project : Project) (m : Mem) (capsule : Nat)

/-- `SEC_FLASH_HASH_TBL_SIZE` -/
def hashTblSize : Nat := hashTblBlockCount * 32

/-- So many bytes at an address are in the buffer. -/
def InBuffer (p n : Nat) : Prop := capsule ≤ p ∧ p + n ≤ capsule + capsuleImageSize

instance (p n : Nat) : Decidable (InBuffer capsule p n) := inferInstanceAs (Decidable (_ ∧ _))

/-- Bytes are read, or passed on to a service. -/
def touch (p n : Nat) : Lib.Run Unit := require (InBuffer capsule p n)

def difference (a b : Nat) : Lib.Run Nat := do
  require (b ≤ a)
  return a - b

/-- The writes to `Addr[numElem]` and `Len[numElem]`. -/
def setElem (maxHashElem numElem : Nat) : Lib.Run Unit :=
  require (8 * numElem + 8 ≤ hashTblSize ∧ 8 * maxHashElem + (8 * numElem + 8) ≤ hashTblSize)

/-- The service that hashes ranges. -/
def hashRanges (chunks : List (Nat × Nat)) : Lib.Run (Option Digest) := do
  require (∀ chunk ∈ chunks, InBuffer capsule chunk.1 chunk.2)
  return S.sha256 (gather m chunks)

/-! ## `FindCapHdrFFS` -/

/-- The first word of `fwCapFfsGuid` -/
def signature : Nat := 0x414D94AD

def ffsAt (p : Nat) : Lib.Run Bool := do
  touch capsule p 4
  if rd m 4 p ≠ signature then return false
  touch capsule p 16
  if !guidAt m p fwCapFfsGuid then return false
  touch capsule (p + 28) 16
  if !guidAt m (p + 28) fwCapSectionGuid then return false
  touch capsule (p + 20) 4
  touch capsule (p + 60) 4
  if rd m 3 (p + 20) < headerSize m (p + 44) + 44 then return false
  touch capsule (p + 44) 16
  return guidAt m (p + 44) fwCapsuleGuid

/-- From the last place in the payload on downwards, until the pointer is that of the capsule. -/
def findRound (p : Nat) : Lib.Run (Next Nat (Option Nat)) := do
  let found ← ffsAt m capsule p
  if found then return .done (some (p + 44))
  else if p = capsule then return .done none
  else return .again (p - 4)

def findCapHdrFFS : Lib.Run (Option Nat) :=
  Lib.Run.loop (findRound m capsule) (capsule + maxPayloadSize - 44)

/-! ## `HashFwRomMapImage` -/

/-- `RomAreaTbl[i]` -/
def entryAt (hdr i : Nat) : Nat := hdr + romLayoutOffset m hdr + 24 * i

/-- The first loop: the entries that have been, and the signed ones among them. -/
def countRound (hdr maxNumElem : Nat) (s : Nat × Nat) : Lib.Run (Next (Nat × Nat) (Nat × Nat)) :=
  if s.1 < maxNumElem then do
    let p := entryAt m hdr s.1
    touch capsule (p + 12) 4
    if (romAreaAt m p).size = 0 then return .done s
    touch capsule (p + 20) 4
    return .again (s.1 + 1, if (romAreaAt m p).signed then s.2 + 1 else s.2)
  else pure (.done s)

/-- The second loop: the entries that have been, and the ranges to hash; none if an area is not in the
payload. -/
def addrRound (hdr payload romSize maxNumElem maxHashElem : Nat) (s : Nat × List (Nat × Nat)) :
    Lib.Run (Next (Nat × List (Nat × Nat)) (Option (Nat × List (Nat × Nat)))) :=
  if s.1 < maxNumElem ∧ s.2.length < maxHashElem then do
    let p := entryAt m hdr s.1
    let area := romAreaAt m p
    touch capsule (p + 12) 4
    if area.size = 0 then return .done (some s)
    touch capsule (p + 20) 4
    if !area.signed then return .again (s.1 + 1, s.2)
    touch capsule (p + 8) 4
    if romSize < area.offset ∨ romSize < area.offset + area.size then return .done none
    setElem maxHashElem s.2.length
    return .again (s.1 + 1, s.2 ++ [(payload + area.offset, area.size)])
  else pure (.done (some s))

/-- The ranges behind those of the areas: the header, and the table with one entry more than has been. -/
def hashRest (hdr maxHashElem i : Nat) (chunks : List (Nat × Nat)) : Lib.Run (Option Digest) := do
  touch capsule (hdr + 20) 4
  let table := (hdr + romLayoutOffset m hdr, (i + 1) * 24)
  if (flags m hdr).testBit 1 then do
    setElem maxHashElem chunks.length
    if maxHashElem ≤ chunks.length + 1 then return none
    setElem maxHashElem (chunks.length + 1)
    hashRanges S m capsule (chunks ++ [(hdr, 56), table])
  else do
    setElem maxHashElem chunks.length
    hashRanges S m capsule (chunks ++ [table])

def hashFwRomMapImage (hdr payload romSize : Nat) : Lib.Run (Option Digest) := do
  let romMapSize ← difference (romImageOffset m hdr) (romLayoutOffset m hdr)
  let counted ← Lib.Run.loop (countRound m capsule hdr (romMapSize / 24)) (0, 0)
  -- two more for the header and the table
  let maxHashElem := counted.2 + 2
  let found ← Lib.Run.loop (addrRound m capsule hdr payload romSize counted.1 maxHashElem) (0, [])
  match found with
  | none => return none
  | some (i, chunks) =>
    if maxHashElem ≤ chunks.length then return none
    hashRest S m capsule hdr maxHashElem i chunks

/-! ## The certificates -/

def verifyFwCertPkcs7 (hdr payload romSize : Nat) : Lib.Run Bool :=
  match trustCert S with
  | none => pure false
  | some trust => do
    let hashed ← hashFwRomMapImage S m capsule hdr payload romSize
    match hashed with
    | none => return false
    | some d =>
      touch capsule (hdr + 32) 4
      let pkcs7CertLen ← difference (certLength m hdr) 24
      touch capsule (hdr + 56) pkcs7CertLen
      return S.pkcs7Verify (peek m (hdr + 56) pkcs7CertLen) trust d

/-- What is hashed of the capsule's own certificate. -/
def touchSigner (hdr : Nat) : Lib.Run Unit :=
  if (flags m hdr).testBit 2 then touch capsule (hdr + 72) 256 else touch capsule (hdr + 32) 552

/-- The loop over the root certificates, at the one at `p`. -/
def rootRound (hdr p : Nat) : Lib.Run (Next Nat Bool) := do
  touch capsule (hdr + 32) 4
  if hdr + 32 + certLength m hdr ≤ p then return .done false
  touch capsule (p + 16) 1
  if m (p + 16) = 0 then return .done false
  touch capsule (p + 16) 256
  if !S.verifyKey (peek m (p + 16) 256) then return .again (p + 528)
  touchSigner m capsule hdr
  match S.sha256 (signerBytes m hdr) with
  | none => return .done false
  | some d =>
    touch capsule (p + 272) 256
    return .done (S.pkcs1Verify (pssPadding m hdr) (peek m (p + 16) 256) d (peek m (p + 272) 256))

/-- The key of the capsule is the platform's, or is signed by a root certificate that has the platform's. -/
def verifyRootKey (hdr : Nat) : Lib.Run Bool :=
  if S.verifyKey (peek m (hdr + 72) 256) then pure true
  else Lib.Run.loop (rootRound S m capsule hdr) (hdr + 584)

def verifyFwCertRsa2048Sha256 (hdr payload romSize : Nat) : Lib.Run Bool := do
  touch capsule (hdr + 20) 4
  touch capsule (hdr + 72) 256
  let trusted ← verifyRootKey S m capsule hdr
  if !trusted then return false
  let hashed ← hashFwRomMapImage S m capsule hdr payload romSize
  match hashed with
  | none => return false
  | some d =>
    touch capsule (hdr + 72) 512
    return S.pkcs1Verify (pssPadding m hdr) (peek m (hdr + 72) 256) d (peek m (hdr + 328) 256)

/-- The authentication, by the type of the certificate. -/
def verifyFwCert (hdr payload romSize : Nat) : Lib.Run Bool :=
  if guidAt m (hdr + 40) certPkcs7Guid then verifyFwCertPkcs7 S m capsule hdr payload romSize
  else verifyFwCertRsa2048Sha256 S m capsule hdr payload romSize

/-! ## `VerifyFwRevision` -/

def sectionAt (p : Nat) : Lib.Run Bool := do
  touch capsule p 16
  if !guidAt m p fidSectionGuid then return false
  touch capsule (p + 16) 4
  return peek m (p + 16) 4 = fidSignature

/-- The search of `GetFidData`, up to the byte behind the area. -/
def fidRound (last p : Nat) : Lib.Run (Next Nat (Option Nat)) := do
  let found ← sectionAt m capsule p
  if found then return .done (some (p + 16))
  else if p < last then return .again (p + 1)
  else return .done none

def getFidData (p size : Nat) : Lib.Run (Option Nat) := Lib.Run.loop (fidRound m capsule (p + size)) p

def digitRound (s : Nat × Int32) : Lib.Run (Next (Nat × Int32) Int32) := do
  touch capsule s.1 1
  atoiRound m s

def atoi (p : Nat) : Lib.Run Int32 := Lib.Run.loop (digitRound m capsule) (p, 0)

def verifyProjectId (fid : Nat) : Lib.Run Bool := do
  touch capsule (biosTag fid) project.tag.length
  if !tagMatches project m fid then return false
  let major ← atoi m capsule (projectMajorVersion fid)
  if major < project.majorVersion then return false
  let minor ← atoi m capsule (projectMinorVersion fid)
  if minor < project.minorVersion then return false
  return true

def revisionRound (romData p : Nat) : Lib.Run (Next Nat Bool) := do
  let area := romAreaAt m p
  touch capsule (p + 12) 4
  if area.size = 0 then return .done false
  touch capsule (p + 20) 4
  if !area.judged then return .again (p + 24)
  touch capsule (p + 8) 4
  let found ← getFidData m capsule (romData + area.offset) area.size
  match found with
  | none => return .again (p + 24)
  | some fid =>
    let verified ← verifyProjectId project m capsule fid
    return .done verified

def verifyFwRevision (hdr romData : Nat) : Lib.Run Bool :=
  Lib.Run.loop (revisionRound project m capsule romData) (hdr + romLayoutOffset m hdr)

/-! ## `CapsuleValidate` -/

/-- From the comparison of the lengths on. -/
def validateAt (hdr payload : Nat) : Lib.Run Bool := do
  touch capsule (hdr + 16) 24
  let romSize ← difference (imageSize m hdr) (romImageOffset m hdr)
  if !headerFits m hdr then return false
  if !(S.keyInSmram && S.key.take 4 ≠ badKey) then return false
  touch capsule (hdr + 40) 16
  let verified ← verifyFwCert S m capsule hdr payload romSize
  if !verified then return false
  verifyFwRevision project m capsule hdr payload

/-- `CapsuleValidate`: whether it succeeds. -/
def capsuleValidate : Lib.Run Bool :=
  if capsule = 0 then pure false
  else do
    touch capsule capsule 16
    if guidAt m capsule fwCapsuleGuid then
      touch capsule (capsule + 28) 2
      if 2 ^ 64 ≤ capsule + romImageOffset m capsule then return false
      else validateAt S project m capsule capsule (capsule + romImageOffset m capsule)
    else
      let found ← findCapHdrFFS m capsule
      match found with
      | none => return false
      | some hdr => validateAt S project m capsule hdr capsule

end BayTrail.SecureFlash.Checked
