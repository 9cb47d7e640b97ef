import BayTrail.Lib.Bytes

/-!
# Firmware capsules

`CapsuleValidate` of `SecSMIFlash/VerifyFwCapsule.c`. A capsule lies in memory as a header, a
table of ROM areas and the payload; what its signature covers is what `HashFwRomMapImage` hashes.
The hash and the signature services are ideal, they are operations of a structure. The layout is
that of `APTIO_FW_CAPSULE_HEADER` and `ROM_AREA`, both packed.
-/

namespace BayTrail.SecureFlash

open Lib (Bytes Mem peek rd)

/-! ## ROM areas -/

def flashSize : Nat := 0x500000
def flashBlockSize : Nat := 0x1000

/-- `SEC_FLASH_HASH_TBL_BLOCK_COUNT` -/
def hashTblBlockCount : Nat := flashSize / flashBlockSize

/-- `Flash4GBMapStart` -/
def flashMapStart : Nat := 0xFFFFFFFF - flashSize + 1

def maxPayloadSize : Nat := flashSize

/-- `FWCAPSULE_IMAGE_SIZE`, also the value of `gFwCapMaxSize`. -/
def capsuleImageSize : Nat := maxPayloadSize + 0x4000

/-- A `ROM_AREA`, without its `Type`. -/
structure RomArea where
  address : Nat
  offset : Nat
  size : Nat
  attributes : Nat

/-- `Attributes & ROM_AREA_FV_SIGNED` -/
def RomArea.signed (a : RomArea) : Bool := a.attributes.testBit 9

def romAreaAt (m : Mem) (p : Nat) : RomArea where
  address := rd m 8 p
  offset := rd m 4 (p + 8)
  size := rd m 4 (p + 12)
  attributes := rd m 4 (p + 20)

/-- The areas of a table with place for a number of them, up to the first without a size. -/
def romAreas (m : Mem) : Nat → Nat → List RomArea
  | _, 0 => []
  | p, n + 1 =>
    if (romAreaAt m p).size = 0 then [] else romAreaAt m p :: romAreas m (p + 24) n

/-! ## The header -/

def fwCapsuleGuid : Bytes :=
  [0x8B, 0xA6, 0x3C, 0x4A, 0x23, 0x77, 0xFB, 0x48, 0x80, 0x3D, 0x57, 0x8C, 0xC1, 0xFE, 0xC4, 0x4D]

def fwCapFfsGuid : Bytes :=
  [0xAD, 0x94, 0x4D, 0x41, 0x8D, 0x99, 0xD2, 0x47, 0xBF, 0xCD, 0x4E, 0x88, 0x22, 0x41, 0xDE, 0x32]

def fwCapSectionGuid : Bytes :=
  [0x1B, 0x64, 0x88, 0x5A, 0xB9, 0xBB, 0xA6, 0x4A, 0x80, 0xF7, 0x49, 0x8A, 0xE4, 0x07, 0xC3, 0x1F]

def certPkcs7Guid : Bytes :=
  [0x9D, 0xD2, 0xAF, 0x4A, 0xDF, 0x68, 0xEE, 0x49, 0x8A, 0xA9, 0x34, 0x7D, 0x37, 0x56, 0x65, 0xA7]

def guidAt (m : Mem) (p : Nat) (guid : Bytes) : Bool := peek m p 16 = guid

def headerSize (m : Mem) (hdr : Nat) : Nat := rd m 4 (hdr + 16)
def flags (m : Mem) (hdr : Nat) : Nat := rd m 4 (hdr + 20)
def imageSize (m : Mem) (hdr : Nat) : Nat := rd m 4 (hdr + 24)
def romImageOffset (m : Mem) (hdr : Nat) : Nat := rd m 2 (hdr + 28)
def romLayoutOffset (m : Mem) (hdr : Nat) : Nat := rd m 2 (hdr + 30)

/-- `FWCert.SignCert.Hdr.Hdr.dwLength` -/
def certLength (m : Mem) (hdr : Nat) : Nat := rd m 4 (hdr + 32)

/-- `FWCert.SignCert.Hdr.Hdr.wCertificateType` -/
def certType (m : Mem) (hdr : Nat) : Nat := rd m 2 (hdr + 38)

/-- Whether a file with a section for a capsule header is at `p`. The comparison of the first word
is part of that of the GUID. -/
def fwCapFfsAt (m : Mem) (p : Nat) : Bool :=
  guidAt m p fwCapFfsGuid && guidAt m (p + 28) fwCapSectionGuid &&
    headerSize m (p + 44) + 44 ≤ rd m 3 (p + 20) && guidAt m (p + 44) fwCapsuleGuid

/-- The search of `FindCapHdrFFS`, from the place `n` words behind the capsule on downwards. -/
def findCapHdrFFS (m : Mem) (capsule : Nat) : Nat → Option Nat
  | 0 => if fwCapFfsAt m capsule then some (capsule + 44) else none
  | n + 1 =>
    if fwCapFfsAt m (capsule + 4 * (n + 1)) then some (capsule + 4 * (n + 1) + 44)
    else findCapHdrFFS m capsule n

/-- The header and the payload of the capsule at an address. -/
def locate (m : Mem) (capsule : Nat) : Option (Nat × Nat) :=
  if guidAt m capsule fwCapsuleGuid then
    let payload := capsule + romImageOffset m capsule
    if 2 ^ 64 ≤ payload then none else some (capsule, payload)
  else (findCapHdrFFS m capsule ((maxPayloadSize - 44) / 4)).map fun hdr => (hdr, capsule)

def romSize (m : Mem) (hdr : Nat) : Nat :=
  (imageSize m hdr + 2 ^ 32 - romImageOffset m hdr) % 2 ^ 32

/-- The sanity check for buffer overruns. -/
def headerFits (m : Mem) (hdr : Nat) : Bool :=
  romSize m hdr ≤ maxPayloadSize && romSize m hdr ≤ capsuleImageSize &&
    certType m hdr = 0x0EF1 && imageSize m hdr ≤ capsuleImageSize &&
    headerSize m hdr ≤ imageSize m hdr && headerSize m hdr ≤ romImageOffset m hdr &&
    romImageOffset m hdr ≤ capsuleImageSize - maxPayloadSize &&
    romLayoutOffset m hdr ≤ romImageOffset m hdr &&
    certLength m hdr + 32 ≤ romLayoutOffset m hdr

/-! ## Ideal services -/

inductive KeyAlg where
  | x509
  | sha256
  | other
  deriving DecidableEq

/-- What `gAmiSig` does and the platform key `gpPubKeyHndl`. Two texts with the same digest are the
same text. -/
structure Services (Digest : Type) where
  sha256 : Bytes → Option Digest
  collisionFree : ∀ {a b d}, sha256 a = some d → sha256 b = some d → a = b
  /-- The first four bytes of a digest, as a number. -/
  firstWord : Digest → Nat
  /-- The arguments are certificate, trusted certificate and digest. -/
  pkcs7Verify : Bytes → Bytes → Digest → Bool
  /-- Whether a key is the one of `gPRKeyGuid`. -/
  verifyKey : Bytes → Bool
  /-- The arguments are whether the padding is PSS, key, digest and signature. -/
  pkcs1Verify : Bool → Bytes → Digest → Bytes → Bool
  keyAlg : KeyAlg
  key : Bytes
  keyInSmram : Bool

/-- `gHashTbl[n]`: a digest that has been computed, or anything else, of which the first four bytes
are given. No digest is ever equal to it. -/
inductive Slot (Digest : Type) where
  | digest (d : Digest)
  | other (firstWord : Nat)
  deriving DecidableEq

abbrev HashTbl (Digest : Type) := Nat → Slot Digest

/-! ## Verification -/

variable {Digest : Type} (S : Services Digest)

def Slot.firstWord : Slot Digest → Nat
  | .digest d => S.firstWord d
  | .other w => w

/-- The word `w` of the scratch arrays `Addr` and `Len`, as far as it has been written. -/
def scratchWord (maxHashElem : Nat) (chunks : List (Nat × Nat)) (w : Nat) : Option Nat :=
  if w < maxHashElem then (chunks[w]?).map Prod.fst else (chunks[w - maxHashElem]?).map Prod.snd

/-- The table after `Addr` and `Len` have been written to it; a slot has four words. -/
def scratch (maxHashElem : Nat) (chunks : List (Nat × Nat)) (tbl : HashTbl Digest) :
    HashTbl Digest := fun k =>
  if (List.range 4).any fun j => (scratchWord maxHashElem chunks (4 * k + j)).isSome then
    .other (((scratchWord maxHashElem chunks (4 * k)).map (· % 2 ^ 32)).getD
      ((tbl k).firstWord S))
  else tbl k

/-- The bytes behind a pointer of 64 bits. -/
def bytesAt (m : Mem) (p n : Nat) : Bytes := (List.range n).map fun i => m ((p + i) % 2 ^ 64)

/-- The bytes of several ranges, one after the other. -/
def gather (m : Mem) (chunks : List (Nat × Nat)) : Bytes :=
  chunks.flatMap fun chunk => bytesAt m chunk.1 chunk.2

/-- The areas in the table of a capsule, as many as the header has place for. -/
def capsuleAreas (m : Mem) (hdr : Nat) : List RomArea :=
  romAreas m (hdr + romLayoutOffset m hdr) ((romImageOffset m hdr - romLayoutOffset m hdr) / 24)

def signedAreas (m : Mem) (hdr : Nat) : List RomArea := (capsuleAreas m hdr).filter RomArea.signed

/-- `HashFwRomMapImage`: the digest and the table, part of which has been used as scratch. -/
def hashFwRomMapImage (m : Mem) (hdr payload : Nat) (tbl : HashTbl Digest) :
    Option Digest × HashTbl Digest :=
  let inside := (signedAreas m hdr).takeWhile fun a => a.offset + a.size ≤ romSize m hdr
  let chunks := inside.map fun a => (payload + a.offset, a.size)
  let maxHashElem := (signedAreas m hdr).length + 2
  if inside.length < (signedAreas m hdr).length then (none, scratch S maxHashElem chunks tbl)
  else
    -- `CAPSULE_FLAGS_CAPHDR_IN_SIGNCERT`
    let chunks := chunks ++ (if (flags m hdr).testBit 1 then [(hdr, 56)] else []) ++
      [(hdr + romLayoutOffset m hdr, ((capsuleAreas m hdr).length + 1) * 24)]
    (S.sha256 (gather m chunks), scratch S maxHashElem chunks tbl)

/-- `TrustCert`; of the hash of a certificate an `EFI_CERT_X509_SHA256` is made. -/
def trustCert : Option Bytes :=
  match S.keyAlg with
  | .x509 => some S.key
  | .sha256 => some (S.key.take 32 ++ List.replicate 16 0)
  | .other => none

def verifyFwCertPkcs7 (m : Mem) (hdr payload : Nat) (tbl : HashTbl Digest) :
    Bool × HashTbl Digest :=
  match trustCert S with
  | none => (false, tbl)
  | some trust =>
    let hashed := hashFwRomMapImage S m hdr payload tbl
    (hashed.1.any (S.pkcs7Verify
      (peek m (hdr + 56) ((certLength m hdr + 2 ^ 64 - 24) % 2 ^ 64)) trust), hashed.2)

/-- `CAPSULE_FLAGS_RSA_PSS_PADDING_SCHEME` -/
def pssPadding (m : Mem) (hdr : Nat) : Bool := (flags m hdr).testBit 0

/-- The part of `SignCert` that is signed by a root certificate,
`CAPSULE_FLAGS_SIGNKEY_IN_ROOTCERT`. -/
def signerBytes (m : Mem) (hdr : Nat) : Bytes :=
  if (flags m hdr).testBit 2 then peek m (hdr + 72) 256 else peek m (hdr + 32) 552

/-- The loop over the root certificates, at the one at `p`. -/
def rootCertVerifies (m : Mem) (hdr : Nat) : Nat → Nat → Bool
  | 0, _ => false
  | n + 1, p =>
    if p < hdr + 32 + certLength m hdr ∧ m (p + 16) ≠ 0 then
      if S.verifyKey (peek m (p + 16) 256) then
        (S.sha256 (signerBytes m hdr)).any fun d =>
          S.pkcs1Verify (pssPadding m hdr) (peek m (p + 16) 256) d (peek m (p + 272) 256)
      else rootCertVerifies m hdr n (p + 528)
    else false

def verifyFwCertRsa2048Sha256 (m : Mem) (hdr payload : Nat) (tbl : HashTbl Digest) :
    Bool × HashTbl Digest :=
  -- no more certificates than bytes
  if S.verifyKey (peek m (hdr + 72) 256) ||
      rootCertVerifies S m hdr (certLength m hdr) (hdr + 584) then
    let hashed := hashFwRomMapImage S m hdr payload tbl
    (hashed.1.any fun d =>
      S.pkcs1Verify (pssPadding m hdr) (peek m (hdr + 72) 256) d (peek m (hdr + 328) 256), hashed.2)
  else (false, tbl)

/-- The authentication, by the type of the certificate. -/
def verifyFwCert (m : Mem) (hdr payload : Nat) (tbl : HashTbl Digest) : Bool × HashTbl Digest :=
  if guidAt m (hdr + 40) certPkcs7Guid then verifyFwCertPkcs7 S m hdr payload tbl
  else verifyFwCertRsa2048Sha256 S m hdr payload tbl

/-- A capsule as it lay in memory when it was validated. -/
structure Capsule where
  mem : Mem
  hdr : Nat
  payload : Nat

/-- `$BAD` -/
def badKey : Bytes := [0x24, 0x42, 0x41, 0x44]

/-- `CapsuleValidate`, of the capsule at an address: the capsule if it succeeds, and the table. -/
def capsuleValidate (m : Mem) (capsule : Nat) (tbl : HashTbl Digest) :
    Option Capsule × HashTbl Digest :=
  if capsule = 0 then (none, tbl)
  else match locate m capsule with
    | none => (none, tbl)
    | some (hdr, payload) =>
      if headerFits m hdr && S.keyInSmram && S.key.take 4 ≠ badKey then
        let verified := verifyFwCert S m hdr payload tbl
        (if verified.1 then some ⟨m, hdr, payload⟩ else none, verified.2)
      else (none, tbl)

end BayTrail.SecureFlash
