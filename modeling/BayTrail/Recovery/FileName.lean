import BayTrail.Lib.Run
import Mathlib.Data.UInt

/-!
# Recovery file names

`FileCompare` and `FileSearch` of `FsRecovery.c`. A pointer into a string is the list of the cells from it on
that may be read: a read behind them fails. `FileCompare` goes through the pattern once, and through the name
by its length and its NUL.
-/

namespace BayTrail.Recovery

open Lib (Run Next)

/-- `CHAR8` of a character constant. -/
def char8 (c : Char) : UInt8 := UInt8.ofNat c.toNat

/-- `toupper` -/
def toupper (c : UInt8) : UInt8 := if char8 'a' ≤ c ∧ c ≤ char8 'z' then c - char8 'a' + char8 'A' else c

/-- `Strlen` -/
def strlen : List UInt8 → Option Nat
  | [] => none
  | c :: string => if c = 0 then some 0 else (strlen string).map (· + 1)

/-- The loop of `*`: what is behind it is compared at each character of the name, and at its end. -/
def compareFromEach (compare : List UInt8 → UInt32 → Option Bool) : List UInt8 → UInt32 → Option Bool
  | [], _ => none
  | c :: fsFilename, fileNameLength =>
    if c = 0 then compare (c :: fsFilename) fileNameLength
    else do
      let matched ← compare (c :: fsFilename) fileNameLength
      if matched then some true else compareFromEach compare fsFilename (fileNameLength - 1)

/-- The loop of `.` for names that are padded: the spaces are left out. -/
def skipSpaces : List UInt8 → UInt32 → Option (List UInt8 × UInt32)
  | [], _ => none
  | ch :: fsFilename, fileNameLength =>
    if ch = char8 ' ' then skipSpaces fsFilename (fileNameLength - 1) else some (ch :: fsFilename, fileNameLength)

/-- A character of the name is passed over if it meets the condition. -/
def passIf (p : UInt8 → Bool) (compare : List UInt8 → UInt32 → Option Bool) : List UInt8 → UInt32 → Option Bool
  | [], _ => none
  | ch :: fsFilename, fileNameLength => if p ch then compare fsFilename (fileNameLength - 1) else some false

/-- The `switch` on a character of the pattern, `compare` being the comparison with the pattern behind it. -/
def compareChar (ignoreSpacesInFilename : Bool) (ch1 : UInt8) (compare : List UInt8 → UInt32 → Option Bool)
    (fsFilename : List UInt8) (fileNameLength : UInt32) : Option Bool :=
  if ch1 = char8 ',' ∨ ch1 = 0 then some true
  else if ch1 = char8 '*' then compareFromEach compare fsFilename fileNameLength
  else if ch1 = char8 '?' then passIf (· ≠ 0) compare fsFilename fileNameLength
  else if ch1 = char8 '.' ∧ ignoreSpacesInFilename then do
    let r ← skipSpaces fsFilename fileNameLength
    compare r.1 r.2
  else passIf (fun ch => toupper ch = toupper ch1) compare fsFilename fileNameLength

/-- `FileCompare` -/
def fileCompare (ignoreSpacesInFilename : Bool) : List UInt8 → List UInt8 → UInt32 → Option Bool
  | [] => fun _ _ => none
  | ch1 :: recoveryFileNamePattern => fun fsFilename fileNameLength => do
    let len1 ← strlen fsFilename
    let len2 ← strlen (ch1 :: recoveryFileNamePattern)
    if len1 = 0 ∨ fileNameLength = 0 then some (decide (len2 = 0 ∨ ch1 = char8 ','))
    else compareChar ignoreSpacesInFilename ch1 (fileCompare ignoreSpacesInFilename recoveryFileNamePattern) fsFilename fileNameLength

/-- The loop to the next comma. -/
def skipPattern : List UInt8 → Option (List UInt8)
  | [] => none
  | c :: recStrPtr => if c ≠ char8 ',' ∧ c ≠ 0 then skipPattern recStrPtr else some (c :: recStrPtr)

/-- `RecStrPtr` behind a comma in front of it. -/
def skipComma : List UInt8 → Option (List UInt8)
  | [] => none
  | c :: recStrPtr => some (if c = char8 ',' then recStrPtr else c :: recStrPtr)

/-- A round of the loop over the patterns. -/
def tryPattern (ignoreSpacesInFilename : Bool) (fsFilename : List UInt8) (fileNameLength : UInt32) (recStrPtr : List UInt8) :
    Run (Next (List UInt8) Bool) := do
  let recStrPtr ← Run.ofOption (skipComma recStrPtr)
  let matched ← Run.ofOption (fileCompare ignoreSpacesInFilename recStrPtr fsFilename fileNameLength)
  if matched then pure (.done true)
  else do
    let recStrPtr ← Run.ofOption (skipPattern recStrPtr)
    pure (if recStrPtr.head? = some 0 then .done false else .again recStrPtr)

/-- `FileSearch`: `EFI_SUCCESS`, or `EFI_INVALID_PARAMETER`. -/
def fileSearch (recoveryFileName fsFilename : List UInt8) (ignoreSpacesInFilename : Bool) (fileNameLength : UInt32) : Run Bool := do
  let c ← Run.ofOption recoveryFileName.head?
  if c = 0 then pure false
  else do
    let c ← Run.ofOption fsFilename.head?
    if c = 0 then pure false
    else if fileNameLength = 0 then pure false
    else Run.loop (tryPattern ignoreSpacesInFilename fsFilename fileNameLength) recoveryFileName

end BayTrail.Recovery
