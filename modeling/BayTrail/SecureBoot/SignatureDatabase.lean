import BayTrail.SecureBoot.HashPe
import BayTrail.SecureBoot.Time

/-!
# Signature databases

`IsSignatureFoundInDatabase` and `IsPkcsSignedDataVerifiedBySignatureList`. A database is
what a well-formed content of its variable encodes. The digital signature protocol is an
oracle, and every call of `AllocatePool` may fail.
-/

namespace BayTrail.SecureBoot

open BayTrail.Lib

/-! ## Structures -/

def gEfiCertX509Guid : Bytes := [0xa1, 0x59, 0xc0, 0xa5, 0xe4, 0x94, 0xa7, 0x4a,
  0x87, 0xb5, 0xab, 0x15, 0x5c, 0x2b, 0xf0, 0x72]
def gEfiCertSha1Guid : Bytes := [0x12, 0xa5, 0x6c, 0x82, 0x10, 0xcf, 0xc9, 0x4a,
  0xb1, 0x87, 0xbe, 0x01, 0x49, 0x66, 0x31, 0xbd]
def gEfiCertSha256Guid : Bytes := [0x26, 0x16, 0xc4, 0xc1, 0x4c, 0x50, 0x92, 0x40,
  0xac, 0xa9, 0x41, 0xf9, 0x36, 0x93, 0x43, 0x28]
def gEfiCertX509Sha256Guid : Bytes := [0x92, 0xa4, 0xd2, 0x3b, 0xc0, 0x96, 0x79, 0x40,
  0xb4, 0x20, 0xfc, 0xf9, 0x8e, 0xf1, 0x03, 0xed]
def gEfiCertX509Sha384Guid : Bytes := [0x6e, 0x87, 0x76, 0x70, 0xc2, 0x80, 0xe6, 0x4e,
  0xaa, 0xd2, 0x28, 0xb3, 0x49, 0xa6, 0x86, 0x5b]
def gEfiCertX509Sha512Guid : Bytes := [0x63, 0xbf, 0x6d, 0x44, 0x02, 0x25, 0xda, 0x4c,
  0xbc, 0xfa, 0x24, 0x65, 0xd2, 0xb0, 0xfe, 0x9d]
def gEfiCertPkcs7Guid : Bytes := [0x9d, 0xd2, 0xaf, 0x4a, 0xdf, 0x68, 0xee, 0x49,
  0x8a, 0xa9, 0x34, 0x7d, 0x37, 0x56, 0x65, 0xa7]

def sizeofSignatureList : Nat := 28
def sizeofGuid : Nat := 16

inductive HashAlg where
  | sha1 | sha256
  deriving DecidableEq

/-- `mImageDigestSize`. -/
def HashAlg.digestSize : HashAlg → Nat
  | .sha1 => 20
  | .sha256 => 32

/-- `mCertType`. -/
def HashAlg.certType : HashAlg → Bytes
  | .sha1 => gEfiCertSha1Guid
  | .sha256 => gEfiCertSha256Guid

/-- `EFI_SIGNATURE_DATA`. -/
structure SignatureData where
  owner : Bytes
  data : Bytes

def SignatureData.bytes (s : SignatureData) : Bytes := s.owner ++ s.data

/-- The types of certificate hashes, with the size of the hash. -/
def certHashTypes : List (Bytes × Nat) :=
  [(gEfiCertX509Sha256Guid, 32), (gEfiCertX509Sha384Guid, 48), (gEfiCertX509Sha512Guid, 64)]

def sizeofEfiTime : Nat := 16

/-- `EFI_SIGNATURE_LIST`: `SignatureSize` is the size of each of its signatures, and that of
a digest or of a certificate hash is known. -/
structure SignatureList where
  type : Bytes
  header : Bytes
  signatureSize : Nat
  signatures : List SignatureData
  type_length : type.length = sizeofGuid
  size_lt : sizeofGuid < signatureSize
  digest_size : ∀ alg : HashAlg, type = alg.certType →
    signatureSize = sizeofGuid + alg.digestSize
  hash_size : ∀ t ∈ certHashTypes, type = t.1 → signatureSize = sizeofGuid + t.2 + sizeofEfiTime
  sized : ∀ s ∈ signatures, s.owner.length = sizeofGuid ∧ s.bytes.length = signatureSize
  total : sizeofSignatureList + header.length + signatureSize * signatures.length < 2 ^ 32

/-- `SignatureListSize`. -/
def SignatureList.listSize (l : SignatureList) : Nat :=
  sizeofSignatureList + l.header.length + l.signatureSize * l.signatures.length

def SignatureList.bytes (l : SignatureList) : Bytes :=
  l.type ++ leBytes 4 l.listSize ++ leBytes 4 l.header.length ++ leBytes 4 l.signatureSize
    ++ l.header ++ l.signatures.flatMap SignatureData.bytes

/-- `EFI_IMAGE_SECURITY_DATABASE`, `..1` and `..2`. -/
inductive DatabaseName where
  | db | dbx | dbt
  deriving DecidableEq

/-- The operations of `Pkcs7Verify` with a trusted certificate. -/
inductive Operation where
  | certValidate | certGetMatchInCertChain | timeStampCertValidateGet
  deriving DecidableEq

/-- The digital signature protocol: `Pkcs7Verify` by operation, and `Hash`. -/
structure Oracle where
  /-- `Pkcs7GetDigestAlgorithm`: the algorithm, when it is one that is supported -/
  digestAlgorithm : Bytes → Option HashAlg
  certValidate : (sig cert digest : Bytes) → Bool
  certGetMatchInCertChain : (sig cert : Bytes) → Bool
  timeStampCertValidate : (sig cert : Bytes) → Bool
  /-- what `Pkcs7TimeStampCertValidateGet` returns: the time of signing -/
  timeOfSigning : Bytes → Nat
  hash : HashAlg → Bytes → Bytes
  hash_length : ∀ alg bs, (hash alg bs).length = alg.digestSize
  /-- a certificate is longer than a digest -/
  cert_length : ∀ sig cert digest, certValidate sig cert digest = true →
    HashAlg.sha256.digestSize < cert.length

/-- What the handler finds around it. -/
structure Platform where
  oracle : Oracle
  /-- the content of a database, if its variable exists -/
  database : DatabaseName → Option (List SignatureList)
  /-- what stands in memory behind a variable that has been read -/
  beyond : Bytes
  /-- an allocation succeeds, of the buffer of a database or of the table of section headers -/
  alloc : Nat → Option DatabaseName → Bool

/-- The global variables of the module: `mCertType` with `mImageDigestSize`,
`mImageDigest`, `mTimeOfSigningLong`, and how much has been allocated. -/
structure Globals where
  certType : Option HashAlg
  imageDigest : Bytes
  timeOfSigning : Int
  allocations : Nat

/-! ## GetEfiImageSecurityDatabaseVariableEx -/

section

variable (p : Platform)

def getDatabase (name : DatabaseName) (g : Globals) : Option (List SignatureList) × Globals :=
  match p.database name with
  | none => (none, g)
  | some lists =>
    let g' := { g with allocations := g.allocations + 1 }
    if p.alloc g.allocations (some name) then (some lists, g') else (none, g')

/-! ## IsSignatureFoundInDatabase -/

/-- The loop over one list. -/
def isInList (type signature : Bytes) (l : SignatureList) : Bool :=
  l.type == type && l.signatureSize = sizeofGuid + signature.length
  && l.signatures.any (·.data == signature)

def isSignatureFoundInDatabase (name : DatabaseName) (type signature : Bytes) (g : Globals) :
    Bool × Globals :=
  match getDatabase p name g with
  | (none, g) => (false, g)
  | (some lists, g) => (lists.any (isInList type signature), g)

/-! ## IsPkcsSignedDataVerifiedBySignatureList -/

/-- `ValidCertType`, without `CertUndefined`. -/
inductive CertType where
  | certSha256 | certX509 | certX509Sha256 | certX509Sha384 | certX509Sha512
  deriving DecidableEq

/-- Where `TimeOfRevocation` stands in a certificate hash. -/
def CertType.timeOffset : CertType → Nat
  | .certX509Sha384 => 48
  | .certX509Sha512 => 64
  | _ => 32

/-- The type of a list; a list of no known type leaves it as it is. -/
def validCertType (mCertType : Option HashAlg) (type : Bytes) (old : Option CertType) :
    Option CertType :=
  if type = gEfiCertX509Guid then some .certX509
  else if mCertType.map HashAlg.certType = some type then some .certSha256
  else if type = gEfiCertX509Sha256Guid then some .certX509Sha256
  else if type = gEfiCertX509Sha384Guid then some .certX509Sha384
  else if type = gEfiCertX509Sha512Guid then some .certX509Sha512
  else old

/-- The variables of the walk: `ValidCertType`, and `bVerifyTimeStampStatus` once
`bProcessVerifyTimeStampStatus` is set. -/
structure Walk where
  globals : Globals
  certType : Option CertType
  stamp : Option Bool

/-- The walk goes on to a list. -/
def Walk.at (w : Walk) (l : SignatureList) : Walk :=
  { w with certType := validCertType w.globals.certType l.type w.certType }

variable (sig : Bytes) (op : Operation)

/-- `Pkcs7Verify` with a certificate of the database. -/
def pkcs7Verify (cert : Bytes) (g : Globals) : Bool × Globals :=
  match op with
  | .certValidate => (p.oracle.certValidate sig cert g.imageDigest, g)
  | .certGetMatchInCertChain => (p.oracle.certGetMatchInCertChain sig cert, g)
  | .timeStampCertValidateGet =>
    if p.oracle.timeStampCertValidate sig cert then
      (true, { g with timeOfSigning := toInt32 (p.oracle.timeOfSigning sig) })
    else (false, g)

/-- `TimeOfRevocationLong`, from the signature data on. -/
def timeOfRevocation (t : CertType) (memory : Bytes) : Int :=
  (osMktime (efiTime (memory.drop t.timeOffset))).getD 0

/-- `bVerifyTimeStampStatus`: asked for once, by the call that is given. -/
def stampStatus (verifyStamp : Globals → Option (Bool × Globals)) (w : Walk) :
    Option (Bool × Walk) :=
  match w.stamp with
  | some stamp => some (stamp, w)
  | none =>
    match verifyStamp w.globals with
    | none => none
    | some (stamp, g) => some (stamp, { w with globals := g, stamp := some stamp })

/-- The body of the loop over the signatures of a list: `cert` is the signature data, and
`memory` all that stands from there on. -/
def checkSignature (verifyStamp : Globals → Option (Bool × Globals)) (t : CertType)
    (cert memory : Bytes) (w : Walk) : Option (Bool × Walk) :=
  let verify := fun w : Walk =>
    let (found, g) := pkcs7Verify p sig op cert w.globals
    some (found, { w with globals := g })
  match t with
  | .certSha256 => some (cert == w.globals.imageDigest, w)
  | .certX509 => verify w
  | t =>
    match stampStatus verifyStamp w with
    | none => none
    | some (stamp, w) =>
      let time := timeOfRevocation t memory
      if time ≠ 0 ∧ !stamp then some (true, w)
      else if time ≠ 0 ∧ w.globals.timeOfSigning < time then some (false, w)
      else verify w

/-- The loop over the signatures of a list, with what stands behind them. -/
def signatureLoop (verifyStamp : Globals → Option (Bool × Globals)) (t : CertType)
    (behind : Bytes) : List SignatureData → Walk → Option (Bool × Walk)
  | [], w => some (false, w)
  | s :: rest, w =>
    match checkSignature p sig op verifyStamp t s.data
      (s.data ++ rest.flatMap SignatureData.bytes ++ behind) w with
    | none => none
    | some (true, w) => some (true, w)
    | some (false, w) => signatureLoop verifyStamp t behind rest w

/-- The loop over the lists. -/
def listLoop (verifyStamp : Globals → Option (Bool × Globals)) :
    List SignatureList → Walk → Option (Bool × Walk)
  | [], w => some (false, w)
  | l :: rest, w =>
    match (w.at l).certType with
    | none => listLoop verifyStamp rest (w.at l)
    | some t =>
      match signatureLoop p sig op verifyStamp t
        (rest.flatMap SignatureList.bytes ++ p.beyond) l.signatures (w.at l) with
      | none => none
      | some (true, w) => some (true, w)
      | some (false, w) => listLoop verifyStamp rest w

end

/-- `IsPkcsSignedDataVerifiedBySignatureList`, with calls nested up to a depth. -/
def isPkcsSignedDataVerified (p : Platform) (sig : Bytes) :
    Nat → DatabaseName → Operation → Globals → Option (Bool × Globals)
  | 0, _, _, _ => none
  | depth + 1, name, op, g =>
    match getDatabase p name { g with timeOfSigning := 0 } with
    | (none, g) => some (false, g)
    | (some lists, g) =>
      (listLoop p sig op
        (isPkcsSignedDataVerified p sig depth .dbt .timeStampCertValidateGet) lists
        ⟨g, none, none⟩).map fun (found, w) => (found, w.globals)

end BayTrail.SecureBoot
