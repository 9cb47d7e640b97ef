import Mathlib.Data.List.TakeWhile
import BayTrail.Lib.Run
import BayTrail.SecureFlash.Layout

/-!
# The revision of a capsule

`VerifyFwRevision`, which `CapsuleValidate` ends with unless it is configured away. It judges the
first section with a `FW_VERSION` that it comes to, and searches each area to its end without
regard to the length of the section.
-/

namespace BayTrail.SecureFlash

open Lib (Bytes Mem peek Next)
open Lib.Run (returns_pure returns_bind)

variable {Digest : Type}

/-! ## The code -/

/-- `PROJECT_TAG`, `PROJECT_MAJOR_VERSION` and `PROJECT_MINOR_VERSION`. -/
structure Project where
  tag : Bytes
  majorVersion : Int32
  minorVersion : Int32

/-- `Atoi`, at a character and with the value of those in front of it. -/
def atoiRound (m : Mem) (s : Nat × Int32) : Lib.Run (Next (Nat × Int32) Int32) :=
  if 48 ≤ m s.1 ∧ m s.1 ≤ 57 then
    pure (.again (s.1 + 1, s.2 * 10 + Int32.ofNat ((m s.1).toNat - 48)))
  else pure (.done s.2)

def atoi (m : Mem) (p : Nat) : Lib.Run Int32 := Lib.Run.loop (atoiRound m) (p, 0)

/-! The fields of the `FW_VERSION` at an address, and its size. -/

def biosTag (fid : Nat) : Nat := fid + 7
def projectMajorVersion (fid : Nat) : Nat := fid + 38
def projectMinorVersion (fid : Nat) : Nat := fid + 41
def fwVersionSize : Nat := 120

def tagMatches (project : Project) (m : Mem) (fid : Nat) : Bool :=
  peek m (biosTag fid) project.tag.length = project.tag

/-- `VerifyProjectId`. -/
def verifyProjectId (project : Project) (m : Mem) (fid : Nat) : Lib.Run Bool := do
  if !tagMatches project m fid then return false
  let major ← atoi m (projectMajorVersion fid)
  if major < project.majorVersion then return false
  let minor ← atoi m (projectMinorVersion fid)
  if minor < project.minorVersion then return false
  return true

def fidSectionGuid : Bytes :=
  [0x75, 0x02, 0xBE, 0x2E, 0x58, 0x64, 0xF9, 0x4A, 0x91, 0xED, 0xD3, 0xF4, 0xED, 0xB1, 0x00, 0xAA]

/-- `$FID` -/
def fidSignature : Bytes := [0x24, 0x46, 0x49, 0x44]

/-- Whether a `FID_SECTION` is at an address. -/
def fidSectionAt (m : Mem) (p : Nat) : Bool :=
  guidAt m p fidSectionGuid && peek m (p + 16) 4 = fidSignature

/-- `GetFidData`, with so many bytes still to go; it looks at the byte behind them too. -/
def getFidData (m : Mem) (p : Nat) : Nat → Option Nat
  | 0 => if fidSectionAt m p then some (p + 16) else none
  | n + 1 => if fidSectionAt m p then some (p + 16) else getFidData m (p + 1) n

/-- The areas that are searched: signed ones with `ROM_AREA_FV_PEI` or `ROM_AREA_FV_DXE`. -/
def RomArea.judged (a : RomArea) : Bool :=
  a.signed && (a.attributes.testBit 1 || a.attributes.testBit 3)

/-- `VerifyFwRevision`, at an entry of the table. -/
def revisionRound (project : Project) (m : Mem) (romData p : Nat) : Lib.Run (Next Nat Bool) :=
  let area := romAreaAt m p
  if area.size = 0 then pure (.done false)
  else if !area.judged then pure (.again (p + 24))
  else
    match getFidData m (romData + area.offset) area.size with
    | none => pure (.again (p + 24))
    | some fid => do
      let verified ← verifyProjectId project m fid
      return .done verified

def verifyFwRevision (project : Project) (m : Mem) (hdr romData : Nat) : Lib.Run Bool :=
  Lib.Run.loop (revisionRound project m romData) (hdr + romLayoutOffset m hdr)

/-- `CapsuleValidate` with the check of the revision. -/
def capsuleValidateRevision (S : Services Digest) (project : Project) (m : Mem) (capsule : Nat)
    (tbl : HashTbl Digest) : Lib.Run (Option Capsule × HashTbl Digest) :=
  let validated := capsuleValidate S m capsule tbl
  match validated.1 with
  | none => pure validated
  | some c => do
    let verified ← verifyFwRevision project c.mem c.hdr c.payload
    return (if verified then some c else none, validated.2)

/-! ## The section that is judged -/

variable {project : Project} {m : Mem} {p q n fid romData : Nat} {c : Capsule}

/-- The first section that the walk over the table comes to from an entry on: that of the first area
to search in which, or right behind which, a section begins. -/
inductive FirstFid (m : Mem) (romData : Nat) : Nat → Nat → Prop
  | here {entry p : Nat} (hsize : (romAreaAt m entry).size ≠ 0)
      (hjudged : (romAreaAt m entry).judged = true) (hle : romData + (romAreaAt m entry).offset ≤ p)
      (hend : p ≤ romData + (romAreaAt m entry).offset + (romAreaAt m entry).size)
      (hsection : fidSectionAt m p = true)
      (hfirst : ∀ q, romData + (romAreaAt m entry).offset ≤ q → q < p → fidSectionAt m q = false) :
      FirstFid m romData entry (p + 16)
  | later {entry fid : Nat} (hsize : (romAreaAt m entry).size ≠ 0)
      (hnone : (romAreaAt m entry).judged = true → ∀ q, romData + (romAreaAt m entry).offset ≤ q →
        q ≤ romData + (romAreaAt m entry).offset + (romAreaAt m entry).size →
        fidSectionAt m q = false)
      (hlater : FirstFid m romData (entry + 24) fid) : FirstFid m romData entry fid

theorem getFidData_some : ∀ {n p : Nat}, getFidData m p n = some fid →
    ∃ q, fid = q + 16 ∧ p ≤ q ∧ q ≤ p + n ∧ fidSectionAt m q = true ∧
      ∀ q', p ≤ q' → q' < q → fidSectionAt m q' = false := by
  intro n
  induction n with
  | zero =>
    intro p h
    unfold getFidData at h
    split at h
    · rename_i hsection
      exact ⟨p, (Option.some.inj h).symm, Nat.le_refl p, Nat.le_refl p, hsection, fun q' h1 h2 => by omega⟩
    · cases h
  | succ n ih =>
    intro p h
    unfold getFidData at h
    split at h
    · rename_i hsection
      exact ⟨p, (Option.some.inj h).symm, Nat.le_refl p, by omega, hsection, fun q' h1 h2 => by omega⟩
    · rename_i hsection
      obtain ⟨q, hq, hle, hend, hat, hfirst⟩ := ih h
      refine ⟨q, hq, by omega, by omega, hat, fun q' h1 h2 => ?_⟩
      obtain rfl | hne := Nat.eq_or_lt_of_le h1
      · exact Bool.eq_false_iff.mpr hsection
      · exact hfirst q' hne h2

theorem getFidData_none : ∀ {n p : Nat}, getFidData m p n = none →
    ∀ q, p ≤ q → q ≤ p + n → fidSectionAt m q = false := by
  intro n
  induction n with
  | zero =>
    intro p h q h1 h2
    unfold getFidData at h
    split at h
    · cases h
    · rename_i hsection
      obtain rfl : q = p := by omega
      exact Bool.eq_false_iff.mpr hsection
  | succ n ih =>
    intro p h q h1 h2
    unfold getFidData at h
    split at h
    · cases h
    · rename_i hsection
      obtain rfl | hne := Nat.eq_or_lt_of_le h1
      · exact Bool.eq_false_iff.mpr hsection
      · exact ih h q hne (by omega)

/-- The search finds the first section. -/
theorem getFidData_eq (hle : p ≤ q) (hend : q ≤ p + n) (hsection : fidSectionAt m q = true)
    (hfirst : ∀ q', p ≤ q' → q' < q → fidSectionAt m q' = false) :
    getFidData m p n = some (q + 16) := by
  cases hget : getFidData m p n with
  | none =>
    rw [getFidData_none hget q hle hend] at hsection
    cases hsection
  | some fid =>
    obtain ⟨q', rfl, hle', -, hsection', hfirst'⟩ := getFidData_some hget
    obtain hlt | rfl | hlt := Nat.lt_trichotomy q q'
    · rw [hfirst' q hle hlt] at hsection
      cases hsection
    · rfl
    · rw [hfirst q' hle' hlt] at hsection'
      cases hsection'

variable {entry hdr payload : Nat} {major minor : Int32}

/-- The walk succeeds if the section that is judged passes. -/
theorem revision_returns :
    (Lib.Run.loop (revisionRound project m romData) entry).Returns true ↔
      ∃ fid, FirstFid m romData entry fid ∧ (verifyProjectId project m fid).Returns true := by
  constructor
  · intro h
    have hrun : true = true → ∃ fid, FirstFid m romData entry fid ∧
        (verifyProjectId project m fid).Returns true := by
      refine Lib.Run.loop_induction (P := fun entry r => r = true → ∃ fid, FirstFid m romData entry fid ∧
        (verifyProjectId project m fid).Returns true) ?_ ?_ h
      · rintro entry r hdone rfl
        unfold revisionRound at hdone
        dsimp only at hdone
        split at hdone
        · cases returns_pure.mp hdone
        · rename_i hsize
          split at hdone
          · cases returns_pure.mp hdone
          · rename_i hjudged
            split at hdone
            · cases returns_pure.mp hdone
            · rename_i fid hget
              obtain ⟨verified, hverified, hpure⟩ := returns_bind.mp hdone
              obtain ⟨q, rfl, hle, hend, hsection, hfirst⟩ := getFidData_some hget
              cases returns_pure.mp hpure
              exact ⟨q + 16, .here hsize (by simpa using hjudged) hle hend hsection hfirst, hverified⟩
      · intro entry entry' r hagain ih hr
        unfold revisionRound at hagain
        dsimp only at hagain
        split at hagain
        · cases returns_pure.mp hagain
        · rename_i hsize
          split at hagain
          · rename_i hjudged
            cases returns_pure.mp hagain
            obtain ⟨fid, hfid, hverified⟩ := ih hr
            refine ⟨fid, .later hsize (fun h => ?_) hfid, hverified⟩
            rw [h] at hjudged
            cases hjudged
          · split at hagain
            · rename_i hget
              cases returns_pure.mp hagain
              obtain ⟨fid, hfid, hverified⟩ := ih hr
              exact ⟨fid, .later hsize (fun _ => getFidData_none hget) hfid, hverified⟩
            · obtain ⟨verified, -, hpure⟩ := returns_bind.mp hagain
              cases returns_pure.mp hpure
    exact hrun rfl
  · rintro ⟨fid, hfid, hverified⟩
    induction hfid with
    | @here entry p hsize hjudged hle hend hsection hfirst =>
      apply Lib.Run.loop_done
      unfold revisionRound
      dsimp only
      rw [if_neg hsize, hjudged, Bool.not_true, if_neg Bool.false_ne_true,
        getFidData_eq hle hend hsection hfirst]
      exact hverified.bind (returns_pure.mpr rfl)
    | @later entry fid hsize hnone _ ih =>
      refine Lib.Run.loop_again ?_ (ih hverified)
      unfold revisionRound
      dsimp only
      rw [if_neg hsize]
      cases hjudged : (romAreaAt m entry).judged with
      | false => exact returns_pure.mpr rfl
      | true =>
        rw [Bool.not_true, if_neg Bool.false_ne_true]
        cases hget : getFidData m (romData + (romAreaAt m entry).offset) (romAreaAt m entry).size with
        | none => exact returns_pure.mpr rfl
        | some fid' =>
          obtain ⟨q, -, hle, hend, hsection, -⟩ := getFidData_some hget
          rw [hnone hjudged q hle hend] at hsection
          cases hsection

/-! ## The record -/

/-- The two numbers that `Atoi` reads from a record. -/
structure HasVersion (m : Mem) (fid : Nat) (major minor : Int32) : Prop where
  major : (atoi m (projectMajorVersion fid)).Returns major
  minor : (atoi m (projectMinorVersion fid)).Returns minor

/-- A version is not below the running one, the major number first. -/
def Project.le (project : Project) (major minor : Int32) : Prop :=
  project.majorVersion < major ∨ project.majorVersion = major ∧ project.minorVersion ≤ minor

theorem verifyProjectId_returns : (verifyProjectId project m fid).Returns true ↔
    tagMatches project m fid = true ∧ ∃ major minor, HasVersion m fid major minor ∧
      project.majorVersion ≤ major ∧ project.minorVersion ≤ minor := by
  unfold verifyProjectId
  cases htag : tagMatches project m fid with
  | false =>
    refine iff_of_false (fun h => ?_) (fun h => Bool.false_ne_true h.1)
    cases returns_pure.mp h
  | true =>
    rw [Bool.not_true, if_neg Bool.false_ne_true, returns_bind]
    constructor
    · rintro ⟨major, hmajor, h⟩
      split at h
      · cases returns_pure.mp h
      · rename_i hmajorLe
        obtain ⟨minor, hminor, h⟩ := returns_bind.mp h
        split at h
        · cases returns_pure.mp h
        · rename_i hminorLe
          exact ⟨rfl, major, minor, ⟨hmajor, hminor⟩, Int32.not_lt.mp hmajorLe,
            Int32.not_lt.mp hminorLe⟩
    · rintro ⟨-, major, minor, ⟨hmajor, hminor⟩, hmajorLe, hminorLe⟩
      refine ⟨major, hmajor, ?_⟩
      rw [if_neg (Int32.not_lt.mpr hmajorLe)]
      refine hminor.bind ?_
      rw [if_neg (Int32.not_lt.mpr hminorLe)]
      exact returns_pure.mpr rfl

/-- The section of a record, with its GUID in front, lies in a signed area of the table that is
searched. -/
def Capsule.Inside (c : Capsule) (fid : Nat) : Prop :=
  ∃ a ∈ c.areas, a.judged = true ∧ c.payload + a.offset + 16 ≤ fid ∧
    fid + fwVersionSize ≤ c.payload + a.offset + a.size

/-- The record is that of the one section in the payload. -/
structure Capsule.OnlyFid (c : Capsule) (fid : Nat) : Prop where
  le : 16 ≤ fid
  section_at : fidSectionAt c.mem (fid - 16) = true
  only : ∀ p, c.payload ≤ p → p ≤ c.payload + romSize c.mem c.hdr → fidSectionAt c.mem p = true →
    p = fid - 16

def Capsule.Judged (c : Capsule) (fid : Nat) : Prop := FirstFid c.mem c.payload c.tableAt fid

theorem HasVersion.unique {major' minor' : Int32} (h : HasVersion m fid major minor)
    (h' : HasVersion m fid major' minor') : major = major' ∧ minor = minor' :=
  ⟨Option.some.inj (h.major.unique h'.major), Option.some.inj (h.minor.unique h'.minor)⟩

theorem FirstFid.unique {fid' : Nat} (h : FirstFid m romData entry fid)
    (h' : FirstFid m romData entry fid') : fid = fid' := by
  induction h with
  | here hsize hjudged hle hend hsection hfirst =>
    cases h' with
    | here _ _ hle' hend' hsection' hfirst' =>
      have h1 := getFidData_eq hle hend hsection hfirst
      have h2 := getFidData_eq hle' hend' hsection' hfirst'
      exact Option.some.inj (h1.symm.trans h2)
    | later _ hnone _ =>
      rw [hnone hjudged _ hle hend] at hsection
      cases hsection
  | later hsize hnone _ ih =>
    cases h' with
    | here _ hjudged' hle' hend' hsection' _ =>
      rw [hnone hjudged' _ hle' hend'] at hsection'
      cases hsection'
    | later _ _ hlater' => exact ih hlater'

/-- The one section of the payload is the one that is judged. -/
theorem judged_of_romAreas {a : RomArea} {romSize : Nat} (hsection : fidSectionAt m q = true)
    (honly : ∀ p, romData ≤ p → p ≤ romData + romSize → fidSectionAt m p = true → p = q)
    (hjudged : a.judged = true) (hle : romData + a.offset ≤ q) (hend : q ≤ romData + a.offset + a.size) :
    ∀ {n entry : Nat}, a ∈ romAreas m entry n →
    (∀ b ∈ romAreas m entry n, b.signed = true → b.offset + b.size ≤ romSize) →
    FirstFid m romData entry (q + 16) := by
  intro n
  induction n with
  | zero => exact fun ha => absurd ha List.not_mem_nil
  | succ n ih =>
    intro entry ha hfits
    unfold romAreas at ha hfits
    by_cases hsize : (romAreaAt m entry).size = 0
    · rw [if_pos hsize] at ha
      exact absurd ha List.not_mem_nil
    rw [if_neg hsize] at ha hfits
    -- no other section is where the search of this area looks
    have hother : (romAreaAt m entry).judged = true → ∀ p, romData + (romAreaAt m entry).offset ≤ p →
        p ≤ romData + (romAreaAt m entry).offset + (romAreaAt m entry).size →
        fidSectionAt m p = true → p = q := by
      intro hj p h1 h2 hp
      have hsigned : (romAreaAt m entry).signed = true := (Bool.and_eq_true _ _ ▸ hj : _ ∧ _).1
      have := hfits _ List.mem_cons_self hsigned
      exact honly p (by omega) (by omega) hp
    by_cases hhere : (romAreaAt m entry).judged = true ∧ romData + (romAreaAt m entry).offset ≤ q ∧
        q ≤ romData + (romAreaAt m entry).offset + (romAreaAt m entry).size
    · obtain ⟨hj, h1, h2⟩ := hhere
      refine .here hsize hj h1 h2 hsection fun p hp hlt => ?_
      by_contra hp'
      rw [Bool.not_eq_false] at hp'
      have := hother hj p hp (by omega) hp'
      omega
    · have hne : a ≠ romAreaAt m entry := by
        rintro rfl
        exact hhere ⟨hjudged, hle, hend⟩
      have hrest : a ∈ romAreas m (entry + 24) n := (List.mem_cons.mp ha).resolve_left hne
      refine .later hsize (fun hj p h1 h2 => ?_)
        (ih hrest fun b hb => hfits b (List.mem_cons_of_mem _ hb))
      by_contra hp'
      rw [Bool.not_eq_false] at hp'
      obtain rfl := hother hj p h1 h2 hp'
      exact hhere ⟨hj, h1, h2⟩

/-! ## Capsules with a signature -/

/-- A capsule whose signature is verified lies with its signed areas inside the image. -/
theorem hash_some {S : Services Digest} {tbl : HashTbl Digest} {d : Digest}
    (h : (hashFwRomMapImage S m hdr payload tbl).1 = some d) :
    ∀ a ∈ signedAreas m hdr, a.offset + a.size ≤ romSize m hdr := by
  unfold hashFwRomMapImage at h
  dsimp only at h
  split at h
  · cases h
  · rename_i hlength
    intro a ha
    have hall : (signedAreas m hdr).takeWhile (fun a => a.offset + a.size ≤ romSize m hdr) =
        signedAreas m hdr :=
      (List.takeWhile_prefix _).eq_of_length
        (Nat.le_antisymm (List.takeWhile_prefix _).length_le (Nat.le_of_not_lt hlength))
    rw [← hall] at ha
    have hfits := List.mem_takeWhile_imp ha
    exact of_decide_eq_true hfits

theorem verifyFwCert_some {S : Services Digest} {tbl : HashTbl Digest}
    (h : (verifyFwCert S m hdr payload tbl).1 = true) :
    ∃ d, (hashFwRomMapImage S m hdr payload tbl).1 = some d := by
  unfold verifyFwCert at h
  split at h
  · unfold verifyFwCertPkcs7 at h
    split at h
    · cases h
    · obtain ⟨d, hd, -⟩ := (Option.any_eq_true _ _).mp h
      exact ⟨d, hd⟩
  · unfold verifyFwCertRsa2048Sha256 at h
    split at h
    · obtain ⟨d, hd, -⟩ := (Option.any_eq_true _ _).mp h
      exact ⟨d, hd⟩
    · cases h

theorem validate_fits {S : Services Digest} {tbl : HashTbl Digest} {capsule : Nat}
    (h : (capsuleValidate S m capsule tbl).1 = some c) :
    ∀ a ∈ c.areas, a.signed = true → a.offset + a.size ≤ romSize c.mem c.hdr := by
  unfold capsuleValidate at h
  split at h
  · cases h
  · split at h
    · cases h
    · rename_i hdr payload _
      split at h
      · dsimp only at h
        split at h
        · rename_i hverified
          obtain rfl := Option.some.inj h
          obtain ⟨d, hd⟩ := verifyFwCert_some hverified
          exact fun a ha hsigned => hash_some hd a (List.mem_filter.mpr ⟨ha, hsigned⟩)
        · cases h
      · cases h

section Validate

variable {S : Services Digest} {tbl : HashTbl Digest} {capsule : Nat}

/-- A capsule is accepted if its signature is verified and the record that is judged passes. -/
theorem accepted_iff : (∃ tbl', (capsuleValidateRevision S project m capsule tbl).Returns (some c, tbl')) ↔
    (capsuleValidate S m capsule tbl).1 = some c ∧
      ∃ fid, c.Judged fid ∧ (verifyProjectId project c.mem fid).Returns true := by
  unfold capsuleValidateRevision
  dsimp only
  cases hvalidated : (capsuleValidate S m capsule tbl).1 with
  | none =>
    refine iff_of_false ?_ (fun h => nomatch h.1)
    rintro ⟨tbl', h⟩
    have := congrArg Prod.fst (returns_pure.mp h)
    rw [hvalidated] at this
    cases this
  | some c' =>
    constructor
    · rintro ⟨tbl', h⟩
      obtain ⟨verified, hrun, hpure⟩ := returns_bind.mp h
      obtain ⟨hc, -⟩ := Prod.mk.inj (returns_pure.mp hpure)
      cases verified with
      | false => cases hc
      | true =>
        obtain rfl := Option.some.inj hc
        exact ⟨rfl, revision_returns.mp hrun⟩
    · rintro ⟨hc, hjudged⟩
      obtain rfl := Option.some.inj hc
      exact ⟨_, (revision_returns.mpr hjudged).bind (returns_pure.mpr rfl)⟩

end Validate

/-! ## The check of the revision -/

/-- A record with the project's tag and a version that is not below the running one. -/
structure Acceptable (project : Project) (c : Capsule) (fid : Nat) : Prop where
  tag : tagMatches project c.mem fid = true
  version : ∃ major minor, HasVersion c.mem fid major minor ∧ project.le major minor

/-- What the check is for: the record that a capsule is accepted for is signed and acceptable, and
a capsule is accepted for its only record if that is. -/
structure RevisionChecked (S : Services Digest) (project : Project) (m : Mem) (capsule : Nat)
    (tbl : HashTbl Digest) : Prop where
  sound : ∀ c tbl', (capsuleValidateRevision S project m capsule tbl).Returns (some c, tbl') →
    ∃ fid, c.Judged fid ∧ c.Inside fid ∧ Acceptable project c fid
  complete : ∀ c fid, (capsuleValidate S m capsule tbl).1 = some c → c.OnlyFid fid → c.Inside fid →
    Acceptable project c fid →
    ∃ tbl', (capsuleValidateRevision S project m capsule tbl).Returns (some c, tbl')

/-- The first section that a search comes to does not run over the end of its area, unless its tag or
one of its numbers fails; and the only record of a capsule has no lower minor number with a higher
major number. -/
structure Regular (project : Project) (c : Capsule) : Prop where
  inside : ∀ fid major minor, c.Judged fid → tagMatches project c.mem fid = true →
    HasVersion c.mem fid major minor → project.majorVersion ≤ major → project.minorVersion ≤ minor →
    c.Inside fid
  minor : ∀ fid major minor, c.OnlyFid fid → c.Inside fid → tagMatches project c.mem fid = true →
    HasVersion c.mem fid major minor → project.majorVersion < major → project.minorVersion ≤ minor

theorem Project.le_of_both (hmajor : project.majorVersion ≤ major)
    (hminor : project.minorVersion ≤ minor) : project.le major minor := by
  by_cases heq : project.majorVersion = major
  · exact Or.inr ⟨heq, hminor⟩
  · exact Or.inl (Int32.lt_of_le_of_ne hmajor heq)

theorem Capsule.OnlyFid.judged (h : c.OnlyFid fid) (hinside : c.Inside fid)
    (hfits : ∀ a ∈ c.areas, a.signed = true → a.offset + a.size ≤ romSize c.mem c.hdr) :
    c.Judged fid := by
  obtain ⟨a, ha, hjudged, hle, hend⟩ := hinside
  unfold fwVersionSize at hend
  have hfid : fid = fid - 16 + 16 := (Nat.sub_add_cancel h.le).symm
  have hwalk := judged_of_romAreas h.section_at h.only hjudged (by omega) (by omega) ha hfits
  rw [← hfid] at hwalk
  exact hwalk

/-- The check is right for a capsule exactly if the capsule is regular. -/
theorem revisionChecked_iff {Digest : Type} (S : Services Digest) (project : Project) (m : Mem)
    (capsule : Nat) (tbl : HashTbl Digest) : RevisionChecked S project m capsule tbl ↔
      ∀ c, (capsuleValidate S m capsule tbl).1 = some c → Regular project c := by
  constructor
  · intro h c hc
    constructor
    · intro fid major minor hjudged htag hversion hmajor hminor
      obtain ⟨tbl', haccepted⟩ := accepted_iff.mpr ⟨hc, fid, hjudged,
        verifyProjectId_returns.mpr ⟨htag, major, minor, hversion, hmajor, hminor⟩⟩
      obtain ⟨fid', hjudged', hinside, -⟩ := h.sound c tbl' haccepted
      rwa [hjudged.unique hjudged']
    · intro fid major minor honly hinside htag hversion hlt
      obtain ⟨tbl', haccepted⟩ := h.complete c fid hc honly hinside
        ⟨htag, major, minor, hversion, Or.inl hlt⟩
      obtain ⟨-, fid', hjudged', hverified⟩ := accepted_iff.mp ⟨tbl', haccepted⟩
      obtain rfl := hjudged'.unique (honly.judged hinside (validate_fits hc))
      obtain ⟨-, major', minor', hversion', -, hminor⟩ := verifyProjectId_returns.mp hverified
      rwa [(hversion.unique hversion').2]
  · intro h
    constructor
    · intro c tbl' haccepted
      obtain ⟨hc, fid, hjudged, hverified⟩ := accepted_iff.mp ⟨tbl', haccepted⟩
      obtain ⟨htag, major, minor, hversion, hmajor, hminor⟩ := verifyProjectId_returns.mp hverified
      exact ⟨fid, hjudged, (h c hc).inside fid major minor hjudged htag hversion hmajor hminor,
        htag, major, minor, hversion, Project.le_of_both hmajor hminor⟩
    · intro c fid hc honly hinside hacceptable
      obtain ⟨htag, major, minor, hversion, hle⟩ := hacceptable
      refine accepted_iff.mpr ⟨hc, fid, honly.judged hinside (validate_fits hc),
        verifyProjectId_returns.mpr ⟨htag, major, minor, hversion, ?_⟩⟩
      obtain hlt | ⟨rfl, hminor⟩ := hle
      · exact ⟨Int32.le_of_lt hlt, (h c hc).minor fid major minor honly hinside htag hversion hlt⟩
      · exact ⟨Int32.le_refl _, hminor⟩

/-! ## A higher major number -/

deriving instance DecidableEq for RomArea

/-- `0ACCT`, 0 and 32. -/
def crbProject : Project := ⟨[0x30, 0x41, 0x43, 0x43, 0x54], 0, 32⟩

/-- One signed area for PEI, which is a section with the project's tag and version 1.0. -/
def revisionBytes : Bytes :=
  fwCapsuleGuid ++ [0x68, 0, 0, 0, 0, 0, 0, 0, 0xF0, 0, 0, 0, 0x68, 0, 0x38, 0] ++
    [0x18, 0, 0, 0, 0, 2, 0xF1, 0x0E] ++ List.replicate 16 0 ++
    List.replicate 12 0 ++ [0x88, 0, 0, 0, 0, 0, 0, 0, 2, 2, 0, 0] ++ List.replicate 24 0 ++
    fidSectionGuid ++ fidSignature ++ [2, 120, 0] ++
    [0x30, 0x41, 0x43, 0x43, 0x54, 0x31, 0x30, 0x30, 0] ++ List.replicate 22 0 ++
    [0x31, 0, 0] ++ [0x30, 0, 0] ++ List.replicate 76 0

theorem revisionBytes_validate :
    (capsuleValidate crb.toServices (loaded revisionBytes 0x68).mem 0x1000 fun _ => .other 0).1 =
      some (loaded revisionBytes 0x68) := by
  have hlocate : locate (loaded revisionBytes 0x68).mem 0x1000
      = some (0x1000, 0x1000 + 0x68) := by
    decide +kernel
  have hverified : (verifyFwCert crb.toServices (loaded revisionBytes 0x68).mem 0x1000
      (0x1000 + 0x68) fun _ => .other 0).1 = true := by
    decide +kernel
  rw [capsuleValidate_some (by decide) hlocate, if_pos (by decide +kernel), hverified,
    if_pos rfl]
  unfold loaded
  dsimp only

theorem revisionBytes_only : (loaded revisionBytes 0x68).OnlyFid 0x1078 := by
  have hsections : ∀ i < 137, fidSectionAt (loaded revisionBytes 0x68).mem (0x1068 + i) = true →
      i = 0 := by
    decide +kernel
  have hsize : romSize (loaded revisionBytes 0x68).mem (loaded revisionBytes 0x68).hdr = 136 := by
    decide +kernel
  refine ⟨by decide, by decide +kernel, fun p hle hend hsection => ?_⟩
  have hpayload : (loaded revisionBytes 0x68).payload = 0x1068 := by decide
  rw [hpayload] at hle hend
  rw [hsize] at hend
  have hp : 0x1068 + (p - 0x1068) = p := Nat.add_sub_cancel' hle
  have := hsections (p - 0x1068) (by omega) (by rw [hp]; exact hsection)
  omega

theorem revisionBytes_version : HasVersion (loaded revisionBytes 0x68).mem 0x1078 1 0 :=
  ⟨⟨3, by decide +kernel⟩, ⟨3, by decide +kernel⟩⟩

/-- Version 1.0 is refused where 0.32 is running. -/
theorem not_revisionChecked : ¬ ∀ (S : Services Bytes) project m capsule tbl,
    RevisionChecked S project m capsule tbl := by
  intro h
  have hinside : (loaded revisionBytes 0x68).Inside 0x1078 :=
    ⟨⟨0, 0, 136, 0x202⟩, by decide +kernel, by decide, by decide, by decide⟩
  obtain ⟨tbl', haccepted⟩ := (h crb.toServices crbProject _ 0x1000 _).complete _ _
    revisionBytes_validate revisionBytes_only hinside
    ⟨by decide +kernel, 1, 0, revisionBytes_version, Or.inl (by decide)⟩
  obtain ⟨-, fid, hjudged, hverified⟩ := accepted_iff.mp ⟨tbl', haccepted⟩
  obtain rfl := hjudged.unique
    (revisionBytes_only.judged hinside (validate_fits revisionBytes_validate))
  obtain ⟨-, major, minor, hversion, -, hminor⟩ := verifyProjectId_returns.mp hverified
  rw [← (revisionBytes_version.unique hversion).2] at hminor
  exact absurd hminor (by decide)

end BayTrail.SecureFlash
