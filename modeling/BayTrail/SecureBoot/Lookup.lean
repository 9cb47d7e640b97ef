import BayTrail.Lib.Run
import BayTrail.SecureBoot.SignatureDatabase

/-!
# Looking into a database of any content

`IsSignatureFoundInDatabase` and `IsPkcsSignedDataVerifiedBySignatureList` over the bytes of a variable, whatever
they are. A pointer into the variable is the bytes from it on. Each read is checked against them, and a division
by zero fails like a read behind them. Both functions are the same walk over lists and signatures.
-/

namespace BayTrail.SecureBoot.Lookup

open BayTrail.Lib

/-! ## Structures -/

section

variable (list : Bytes)

def signatureType : Bytes := list.take sizeofGuid
def signatureListSize : Nat := leVal ((list.drop 16).take 4)
def signatureHeaderSize : Nat := leVal ((list.drop 20).take 4)
def signatureSize : Nat := leVal ((list.drop 24).take 4)

/-- The number of signatures by the sizes of a list. The difference is one of `UINTN`s. -/
def certCount : Nat :=
  (signatureListSize list + 2 ^ 64 - sizeofSignatureList - signatureHeaderSize list) % 2 ^ 64 / signatureSize list

/-- The first signature. -/
def firstCert : Bytes := list.drop (sizeofSignatureList + signatureHeaderSize list)

end

/-- So many bytes from an offset on may be read. -/
def Readable (bs : Bytes) (offset n : Nat) : Prop := n = 0 ∨ offset + n ≤ bs.length

instance (bs : Bytes) (offset n : Nat) : Decidable (Readable bs offset n) := inferInstanceAs (Decidable (_ ∨ _))

/-- The bytes from an offset on. -/
def bytesAt (bs : Bytes) (offset n : Nat) : Bytes := (bs.drop offset).take n

/-! ## The walk -/

/-- What the functions do differently with a list: `kind` is what it is taken for after the one in front of it, `width`
the range of `CertCount`, and `admits` says for which size its signatures are looked at. -/
structure Walker (κ : Type) where
  kind : Option κ → Bytes → Option κ
  width : Nat
  admits : Nat → Bool

section

variable {κ σ : Type} (w : Walker κ) (judge : κ → Nat → Bytes → σ → Run (Bool × σ))

/-- The loop over the signatures of a list. -/
def certLoop (k : κ) (size : Nat) : Nat → Bytes → σ → Run (Bool × σ)
  | 0, _, st => pure (false, st)
  | n + 1, cert, st => do
    let r ← judge k size cert st
    if r.1 then pure r else certLoop k size n (cert.drop size) r.2

/-- The signatures of a list. -/
def checkList (k : κ) (list : Bytes) (st : σ) : Run (Bool × σ) :=
  if w.admits (signatureSize list) then certLoop judge k (signatureSize list) (certCount list % w.width) (firstCert list) st
  else pure (false, st)

/-- A list that is all there: the walk goes on behind it, unless one of its signatures is accepted. -/
def enterList (list : Bytes) (st : σ) : Option κ → Run (Next (Option κ × Bytes × σ) (Bool × σ))
  | none => pure (.again (none, list.drop (signatureListSize list), st))
  | some k => do
    Run.require (24 + 4 ≤ list.length)
    Run.require (signatureSize list ≠ 0)
    let r ← checkList w judge k list st
    pure (if r.1 then .done r else .again (some k, list.drop (signatureListSize list), r.2))

/-- A round of the loop over the lists. `SignatureType` stands in front of the size that has been read. -/
def listRound (s : Option κ × Bytes × σ) : Run (Next (Option κ × Bytes × σ) (Bool × σ)) :=
  if s.2.1 = [] then pure (.done (false, s.2.2))
  else do
    Run.require (16 + 4 ≤ s.2.1.length)
    if s.2.1.length < signatureListSize s.2.1 then pure (.done (false, s.2.2))
    else enterList w judge s.2.1 s.2.2 (w.kind s.1 (signatureType s.2.1))

def walk (data : Bytes) (st : σ) : Run (Bool × σ) := Run.loop (listRound w judge) (none, data, st)

end

/-! ## IsSignatureFoundInDatabase -/

/-- `MemCmp` with the signature. -/
def compareSignature (signature cert : Bytes) : Run (Bool × Unit) := do
  Run.require (Readable cert sizeofGuid signature.length)
  pure (decide (bytesAt cert sizeofGuid signature.length = signature), ())

/-- Lists of other types are passed over, and the signatures of a list of another size are not looked at. -/
def finder (type signature : Bytes) : Walker Unit where
  kind _ t := if t = type then some () else none
  width := 2 ^ 64
  admits size := size = sizeofGuid + signature.length

/-- `IsSignatureFoundInDatabase`, with what `GetEfiImageSecurityDatabaseVariableEx` has returned. -/
def isSignatureFoundInDatabase (data : Option Bytes) (type signature : Bytes) : Run Bool :=
  match data with
  | none => pure false
  | some data => do
    let r ← walk (finder type signature) (fun _ _ cert _ => compareSignature signature cert) data ()
    pure r.1

/-! ## IsPkcsSignedDataVerifiedBySignatureList -/

/-- What both functions find around them: `mCertType`, `mImageDigest`, `Pkcs7Verify` with the signature that is
checked (the size that it returns in `SigCertSize`, if it succeeds), and the variables. -/
structure Surroundings where
  certType : HashAlg
  imageDigest : Bytes
  pkcs7Verify : Operation → Bytes → Option Nat
  database : DatabaseName → Option Bytes

/-- `mTimeOfSigningLong`, and `bVerifyTimeStampStatus` once `bProcessVerifyTimeStampStatus` is set. -/
structure Stamps where
  timeOfSigning : Int
  verified : Option Bool

section

variable (e : Surroundings) (op : Operation) (inner : Run (Bool × Int))

/-- `RootCertSize`: a difference of `UINTN`s. -/
@[irreducible] def rootCertSize (size : Nat) : Nat := (size + 2 ^ 64 - sizeofGuid) % 2 ^ 64

/-- What follows from the status of `Pkcs7Verify`. -/
def verdict (st : Stamps) : Option Nat → Bool × Stamps
  | none => (false, st)
  | some sigCertSize =>
    (true, if op = .timeStampCertValidateGet then { st with timeOfSigning := toInt32 sigCertSize } else st)

/-- `Pkcs7Verify` with the data of a signature. -/
def verifyCert (size : Nat) (cert : Bytes) (st : Stamps) : Run (Bool × Stamps) := do
  Run.require (Readable cert sizeofGuid (rootCertSize size))
  pure (verdict op st (e.pkcs7Verify op (bytesAt cert sizeofGuid (rootCertSize size))))

/-- `bVerifyTimeStampStatus`: dbt is asked once. -/
def stampStatus (st : Stamps) : Run (Bool × Stamps) :=
  match st.verified with
  | some b => pure (b, st)
  | none => do
    let r ← inner
    pure (r.1, { timeOfSigning := r.2, verified := some r.1 })

/-- `TimeOfRevocationLong` of a certificate hash. -/
def revocationTime (k : CertType) (cert : Bytes) : Int := (osMktime (efiTime (bytesAt cert (sizeofGuid + k.timeOffset) 7))).getD 0

/-- The hash of a certificate, with the time from which on it is revoked. -/
def judgeHash (k : CertType) (size : Nat) (cert : Bytes) (st : Stamps) : Run (Bool × Stamps) := do
  let stamp ← stampStatus inner st
  Run.require (Readable cert (sizeofGuid + k.timeOffset) 7)
  -- without a trusted time stamp the image counts as revoked, whatever its certificates
  if revocationTime k cert ≠ 0 ∧ stamp.1 = false then pure (true, stamp.2)
  else if revocationTime k cert ≠ 0 ∧ stamp.2.timeOfSigning < revocationTime k cert then pure (false, stamp.2)
  else verifyCert e op size cert stamp.2

/-- The `switch` on `ValidCertType`. -/
def judgeCert (k : CertType) (size : Nat) (cert : Bytes) (st : Stamps) : Run (Bool × Stamps) :=
  match k with
  | .certSha256 =>
    if rootCertSize size = e.imageDigest.length then do
      Run.require (Readable cert sizeofGuid e.imageDigest.length)
      pure (decide (bytesAt cert sizeofGuid e.imageDigest.length = e.imageDigest), st)
    else pure (false, st)
  | .certX509 => verifyCert e op size cert st
  | k => judgeHash e op inner k size cert st

/-- `ValidCertType` is kept for a list of no known type. -/
def verifier : Walker CertType where
  kind old t := validCertType (some e.certType) t old
  width := 2 ^ 32
  admits _ := true

end

/-- `IsPkcsSignedDataVerifiedBySignatureList`, with `mTimeOfSigningLong` behind it, on a stack for so many nested
calls. -/
def isPkcsSignedDataVerified (e : Surroundings) : Nat → DatabaseName → Operation → Run (Bool × Int)
  | 0, _, _ => Run.ofOption none
  | depth + 1, name, op =>
    match e.database name with
    | none => pure (false, 0)
    | some data => do
      let r ← walk (verifier e) (judgeCert e op (isPkcsSignedDataVerified e depth .dbt .timeStampCertValidateGet)) data ⟨0, none⟩
      pure (r.1, r.2.timeOfSigning)

end BayTrail.SecureBoot.Lookup
