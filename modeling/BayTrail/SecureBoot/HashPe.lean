import BayTrail.SecureBoot.PeImage

/-!
# Hashing a PE image

`HashPeImage` of `DxeImageVerificationLib.c`, up to the call of the hash protocol: the
list of elements that is handed over. Its table of section headers and its list of
elements are of a fixed size; an access outside of one is an outcome of its own.
-/

namespace BayTrail.SecureBoot

open BayTrail.Lib

def maxElemNum : Nat := 28

/-- `addr[i]`, from `mImageBase`, and `len[i]`. -/
structure Element where
  addr : Nat
  len : Nat
  deriving DecidableEq

inductive HashOutcome where
  /-- the function returns `FALSE` -/
  | fail
  /-- it reads or writes outside of a table -/
  | stray
  /-- it hashes the elements -/
  | hash (elements : List Element)
  deriving DecidableEq

/-- `a - b` of `UINTN`s. -/
def uintnSub (a b : Nat) : Nat := (a + 2 ^ 64 - b) % 2 ^ 64

/-- Steps 1 to 9: the elements of the header, if none is empty. -/
def headerElements (img : Image) (g : Magic) : Option (List Element) :=
  let checkSum := img.checkSum
  let security := img.dataDirectory g directoryEntrySecurity
  let elements : List Element :=
    if img.numberOfRvaAndSizes g ≤ directoryEntrySecurity then
      [⟨0, checkSum⟩, ⟨checkSum + 4, uintnSub img.sizeOfHeaders (checkSum + 4)⟩]
    else
      [⟨0, checkSum⟩, ⟨checkSum + 4, uintnSub security (checkSum + 4)⟩,
        ⟨security + sizeofDataDirectory,
          uintnSub img.sizeOfHeaders (security + sizeofDataDirectory)⟩]
  if elements.any (·.len = 0) then none else some elements

/-- `SectionHeader[i] = s`. -/
def setSection (table : List Section) (i : Nat) (s : Section) : Except HashOutcome (List Section) :=
  if i < table.length then .ok (table.set i s) else .error .stray

/-- The inner loop of step 12, from `Pos` down: the table and the place for the section. -/
def shiftLoop (s : Section) : Nat → List Section → Except HashOutcome (List Section × Nat)
  | 0, table => .ok (table, 0)
  | pos + 1, table =>
    match table[pos]? with
    | none => .error .stray
    | some u =>
      if s.pointerToRawData < u.pointerToRawData then
        match setSection table (pos + 1) u with
        | .error e => .error e
        | .ok table => shiftLoop s pos table
      else .ok (table, pos + 1)

/-- Step 12: `n` section headers from `p` on are sorted into the table. -/
def sortLoop (img : Image) : Nat → Nat → Nat → List Section → Except HashOutcome (List Section)
  | 0, _, _, table => .ok table
  | n + 1, index, p, table =>
    if img.size < p + sizeofSectionHeader then .error .fail
    else
      let s := sectionAt img.data p
      match shiftLoop s index table with
      | .error e => .error e
      | .ok (table, pos) =>
        match setSection table pos s with
        | .error e => .error e
        | .ok table => sortLoop img n (index + 1) (p + sizeofSectionHeader) table

/-- `addr[num_elem] = ..; len[num_elem++] = ..`, and the test behind it. -/
def pushElement (elements : List Element) (e : Element) : Except HashOutcome (List Element) :=
  if maxElemNum ≤ elements.length then .error .stray
  else if maxElemNum ≤ elements.length + 1 then .error .fail
  else .ok (elements ++ [e])

/-- Steps 13 to 15: the elements, and `SumOfBytesHashed`. -/
def elementLoop (img : Image) : List Section → List Element → Nat →
    Except HashOutcome (List Element × Nat)
  | [], elements, sum => .ok (elements, sum)
  | s :: table, elements, sum =>
    if s.sizeOfRawData = 0 then elementLoop img table elements sum
    else if img.size < s.pointerToRawData + s.sizeOfRawData then .error .fail
    else
      match pushElement elements ⟨s.pointerToRawData, s.sizeOfRawData⟩ with
      | .error e => .error e
      | .ok elements =>
        if img.size < (sum + s.sizeOfRawData) % 2 ^ 64 then .error .fail
        else elementLoop img table elements ((sum + s.sizeOfRawData) % 2 ^ 64)

/-- `CertSize`. -/
def certSize (img : Image) (g : Magic) : Nat :=
  if img.numberOfRvaAndSizes g ≤ directoryEntrySecurity then 0
  else img.directorySize g directoryEntrySecurity

/-- Step 16. -/
def extraElement (img : Image) (g : Magic) (elements : List Element) (sum : Nat) :
    Except HashOutcome (List Element) :=
  if sum < img.size then
    if (certSize img g + sum) % 2 ^ 64 < img.size then
      pushElement elements ⟨sum, uintnSub (uintnSub img.size (certSize img g)) sum⟩
    else if img.size < (certSize img g + sum) % 2 ^ 64 then .error .fail
    else .ok elements
  else .ok elements

/-- `HashPeImage`, where `allocated` says whether memory for the table is found. -/
def hashPeImage (img : Image) (allocated : Bool) : HashOutcome :=
  match img.magic with
  | none => .fail
  | some g =>
    match headerElements img g with
    | none => .fail
    | some elements =>
      if img.size < sizeofSectionHeader * img.numberOfSections then .fail
      else if !allocated then .fail
      else
        match sortLoop img img.numberOfSections 0 img.sectionHeaders
          (List.replicate img.numberOfSections Section.zero) with
        | .error e => e
        | .ok table =>
          match elementLoop img table elements img.sizeOfHeaders with
          | .error e => e
          | .ok (elements, sum) =>
            match extraElement img g elements sum with
            | .error e => e
            | .ok elements => .hash elements

end BayTrail.SecureBoot
