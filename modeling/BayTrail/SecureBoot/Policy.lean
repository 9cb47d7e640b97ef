import BayTrail.SecureBoot.Handler
import BayTrail.SecureBoot.Databases
import BayTrail.SecureBoot.Coverage

/-!
# The decision of the handler

An image is let through only when a certificate of db verifies one of its signatures or db
has a digest of it, and dbx has none of its digests and revokes none of its signatures. The
code keeps to it as long as what it does not provide for stays away from what it reads
(`Regular`). The loop over the certificates carries what has been seen (`LoopInv`): the step
is `verifySignature_spec`, the run `certLoop_rule`, and `verifyHash_decided` decides with it.
-/

namespace BayTrail.SecureBoot

open BayTrail.Lib

/-! ## The signatures of an image -/

section

variable (img : Image)

/-- Where the next certificate stands. -/
def nextCertificate (offset : Nat) : Nat :=
  offset + (dwLength img offset + alignSize (dwLength img offset))

/-- The signatures in a table of certificates, up to the first that is malformed. -/
def certificatesFrom (stop : Nat) : Nat → Nat → List Bytes
  | 0, _ => []
  | fuel + 1, offset =>
    if stop ≤ offset then []
    else
      match certificateAt img offset (stop - offset) with
      | .stop => []
      | .skip => certificatesFrom stop fuel (nextCertificate img offset)
      | .signed sig => sig :: certificatesFrom stop fuel (nextCertificate img offset)

def Image.signatures : List Bytes :=
  match img.secDataDir with
  | none => []
  | some (address, size) => certificatesFrom img (address + size) size address

variable (p : Platform)

/-- The digest of the image, if it can be hashed. -/
def Platform.digest (alg : HashAlg) : Option Bytes :=
  match hashPeImage img true with
  | .hash elements =>
    some (p.oracle.hash alg (elements.flatMap fun e => peek img.data e.addr e.len))
  | _ => none

/-! ## The policy -/

/-- A signature that dbx bars the image by. -/
def Platform.Barred (sig : Bytes) : Prop :=
  ∃ alg digest, p.oracle.digestAlgorithm sig = some alg ∧ p.digest img alg = some digest
    ∧ p.BarredBy sig digest alg

/-- A signature that db vouches for the image by. -/
def Platform.Vouched (sig : Bytes) : Prop :=
  ∃ alg digest, p.oracle.digestAlgorithm sig = some alg ∧ p.digest img alg = some digest
    ∧ p.VouchedFor sig digest alg

/-- The verification of a signature, behind others, comes upon nothing of it: neither upon
one that dbx revokes, of another digest algorithm, nor upon a hash that fails for lack of
memory, nor in dbx and dbt, nor in db where it is asked. -/
structure SignatureRegular (seen : List Bytes) (sig : Bytes) : Prop where
  supported : p.oracle.digestAlgorithm sig = none → ¬ p.Revoked sig
  alloc : p.oracle.digestAlgorithm sig ≠ none → ∀ k, p.alloc k none = true
  dbx : ∀ alg digest, p.oracle.digestAlgorithm sig = some alg → p.digest img alg = some digest →
    p.DbxTame sig digest alg
  db : ∀ alg digest, p.oracle.digestAlgorithm sig = some alg → p.digest img alg = some digest →
    ¬ p.BarredBy sig digest alg → (p.Readable .db → ∀ sig' ∈ seen, ¬ p.Vouched img sig') →
    p.Tame alg .db DbEntry fun type data => ¬ Vouches p sig digest alg type data

/-- Nor does the loop over the certificates, and the offset does not wrap, up to a signature
that bars the image. -/
def CertificatesRegular (stop : Nat) : Nat → Nat → List Bytes → Prop
  | 0, _, _ => True
  | fuel + 1, offset, seen =>
    stop ≤ offset ∨
      match certificateAt img offset (stop - offset) with
      | .stop => True
      | .skip => nextCertificate img offset < 2 ^ 32
        ∧ CertificatesRegular stop fuel (nextCertificate img offset) seen
      | .signed sig => (p.digest img .sha256 ≠ none → SignatureRegular img p seen sig) ∧
        (¬ p.Barred img sig → nextCertificate img offset < 2 ^ 32
          ∧ CertificatesRegular stop fuel (nextCertificate img offset) (seen ++ [sig]))

/-- Nor does the function: the table of an image that is passed on ends below 4 GiB, and dbx
can be read when the image is hashed. -/
structure Regular : Prop where
  table : img.passedOn = true → ∀ address size, img.secDataDir = some (address, size) →
    address + size < 2 ^ 32 ∧ CertificatesRegular img p (address + size) size address []
  dbx : img.passedOn = true → p.digest img .sha256 ≠ none → (∃ k, p.alloc k none = true) →
    p.Readable .dbx

end

variable {p : Platform} {img : Image} {bytes : Bytes}

/-! ## The walk over the certificates -/

variable {offset depth stop : Nat} {alg : HashAlg} {digest sig : Bytes} {seen : List Bytes}
  {s : CertLoop}

/-- What the loop over the certificates has found, with the signatures it has seen. -/
structure Passed (p : Platform) (img : Image) (seen : List Bytes) (s : CertLoop) : Prop where
  verified : s.verified = true → ∃ sig ∈ seen, p.Vouched img sig
  clear : ∀ sig ∈ seen, ¬ p.Revoked sig ∧ ∀ alg digest, p.oracle.digestAlgorithm sig = some alg →
    p.digest img alg = some digest → digest ∉ p.signatures .dbx alg.certType
  certType : s.globals.certType = some .sha256 → ∀ digest, p.digest img .sha256 = some digest →
    digest ∉ p.signatures .dbx gEfiCertSha256Guid
  status : s.status = true → ∀ k, p.alloc k none = true
  action : s.action ≠ .authSigFound

end BayTrail.SecureBoot
