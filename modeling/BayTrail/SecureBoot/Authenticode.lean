import BayTrail.SecureBoot.Coverage

/-!
# Hashing a PE image: what the hashed bytes tell

Each header field that the elements depend on stands in an element in front of those that
it decides on. So two images with the same hashed bytes have the same elements up to the
extra data, and the same bytes in them.
-/

namespace BayTrail.SecureBoot

open BayTrail.Lib

/-! ## Bytes in elements -/

variable {n p a : Nat} {m m' : Mem}

theorem peek_getElem? (m : Mem) (p : Nat) {i : Nat} (hi : i < n) :
    (peek m p n)[i]? = some (m (p + i)) := by
  have hlen : i < (peek m p n).length := by rwa [peek_length]
  rw [List.getElem?_eq_getElem hlen, holds_iff_get.mp (holds_peek m p n) i hlen]

theorem eq_of_peek_eq (h : peek m p n = peek m' p n) (h1 : p ≤ a)
    (h2 : a < p + n) : m a = m' a := by
  have hi := peek_getElem? m p (show a - p < n by omega)
  rw [h, peek_getElem? m' p (by omega), show p + (a - p) = a by omega] at hi
  exact (Option.some.inj hi).symm

variable {img img' : Image} {g g' : Magic}

/-- Two byte strings that start with bytes from one place agree as far as both reach. -/
theorem eq_of_append_eq {n' : Nat} {r r' : Bytes}
    (h : peek m p n ++ r = peek m' p n' ++ r') (h1 : p ≤ a) (h2 : a < p + n) (h3 : a < p + n') :
    m a = m' a := by
  have hget : (peek m p n ++ r)[a - p]? = (peek m' p n' ++ r')[a - p]? := by rw [h]
  rw [List.getElem?_append_left (by rw [peek_length]; omega),
    List.getElem?_append_left (by rw [peek_length]; omega), peek_getElem? m p (by omega),
    peek_getElem? m' p (by omega), show p + (a - p) = a by omega] at hget
  exact Option.some.inj hget

/-- The bytes of elements in front that both images have. -/
theorem peek_eq_of_hashed {rest rest' : List Element} : ∀ {front : List Element},
    hashedBytes img (front ++ rest) = hashedBytes img' (front ++ rest') →
    ∀ e ∈ front, peek img.data e.addr e.len = peek img'.data e.addr e.len
  | [], _, _, he => absurd he List.not_mem_nil
  | e :: front, h, u, hu => by
    unfold hashedBytes at h
    rw [List.cons_append, List.cons_append, List.flatMap_cons, List.flatMap_cons] at h
    obtain ⟨hfirst, htail⟩ := List.append_inj h (by rw [peek_length, peek_length])
    rcases List.mem_cons.mp hu with rfl | hu
    · exact hfirst
    · exact peek_eq_of_hashed htail u hu

/-! ## The headers -/

/-- Fields in front of `CheckSum`. -/
structure SameFields (img img' : Image) : Prop where
  offset : img.peCoffHeaderOffset = img'.peCoffHeaderOffset
  magic : img.magic = img'.magic
  numberOfSections : img.numberOfSections = img'.numberOfSections
  sizeOfOptionalHeader : img.sizeOfOptionalHeader = img'.sizeOfOptionalHeader
  sizeOfHeaders : img.sizeOfHeaders = img'.sizeOfHeaders

theorem peCoffHeaderOffset_congr (h : ∀ a, a < sizeofDosHeader → img.data a = img'.data a) :
    img.peCoffHeaderOffset = img'.peCoffHeaderOffset := by
  have hmagic : rd img.data 2 0 = rd img'.data 2 0 :=
    rd_congr fun a _ ha => h a (by unfold sizeofDosHeader; omega)
  have hnew : rd img.data 4 0x3C = rd img'.data 4 0x3C :=
    rd_congr fun a _ ha => h a (by unfold sizeofDosHeader; omega)
  unfold Image.peCoffHeaderOffset
  rw [hmagic, hnew]

theorem sameFields_of_bytes (hoff : img.peCoffHeaderOffset = img'.peCoffHeaderOffset)
    (h : ∀ a, a < img.checkSum → img.data a = img'.data a) : SameFields img img' := by
  have hfield : ∀ w p, p + w ≤ img.peCoffHeaderOffset + 88 → rd img.data w p = rd img'.data w p :=
    fun w p hp => rd_congr fun a _ ha => h a (by
      unfold Image.checkSum Image.optionalHeader
      omega)
  refine ⟨hoff, ?_, ?_, ?_, ?_⟩
  · unfold Image.magic Image.machine Image.optionalHeader
    rw [← hoff, hfield 2 (img.peCoffHeaderOffset + 4) (by omega),
      hfield 2 (img.peCoffHeaderOffset + 24) (by omega)]
  · unfold Image.numberOfSections
    rw [← hoff, hfield 2 _ (by omega)]
  · unfold Image.sizeOfOptionalHeader
    rw [← hoff, hfield 2 _ (by omega)]
  · unfold Image.sizeOfHeaders Image.optionalHeader
    rw [← hoff, hfield 4 _ (by omega)]

/-- The first element ends at `CheckSum`, and the second one starts behind it and reaches
the data directories. -/
theorem Sound.authenticode_split (h : Sound img g) : ∃ n rest,
    hashedBytes img (authenticode img g)
      = peek img.data 0 img.checkSum ++ (peek img.data (img.checkSum + 4) n ++ rest)
    ∧ img.optionalHeader + g.dataDirectory ≤ img.checkSum + 4 + n := by
  have hopt := h.optional
  have hin := h.inside
  unfold authenticode authenticodeHeaders hashedBytes
  dsimp only
  split
  next =>
    refine ⟨img.sizeOfHeaders - (img.checkSum + 4), _, rfl, ?_⟩
    omega
  next hnum =>
    refine ⟨img.dataDirectory g directoryEntrySecurity - (img.checkSum + 4), _, rfl, ?_⟩
    unfold Image.dataDirectory
    omega

theorem Sound.sameFields (h : Sound img g) (h' : Sound img' g')
    (heq : hashedBytes img (authenticode img g) = hashedBytes img' (authenticode img' g')) :
    SameFields img img' ∧ g = g' ∧ img.numberOfRvaAndSizes g = img'.numberOfRvaAndSizes g := by
  obtain ⟨n, rest, hsplit, hn⟩ := h.authenticode_split
  obtain ⟨n', rest', hsplit', hn'⟩ := h'.authenticode_split
  rw [hsplit, hsplit'] at heq
  have hsum : img.checkSum = img.peCoffHeaderOffset + 24 + 64 := rfl
  have hsum' : img'.checkSum = img'.peCoffHeaderOffset + 24 + 64 := rfl
  have hfirst : ∀ a, a < img.checkSum → a < img'.checkSum → img.data a = img'.data a :=
    fun a h1 h2 => eq_of_append_eq heq (Nat.zero_le _) (by omega) (by omega)
  -- the place of the header, then the fields in front of the sum
  have hoff : img.peCoffHeaderOffset = img'.peCoffHeaderOffset :=
    peCoffHeaderOffset_congr fun a ha => by
      unfold sizeofDosHeader at ha
      exact hfirst a (by omega) (by omega)
  have hchecksum : img.checkSum = img'.checkSum := by omega
  have hfields : SameFields img img' :=
    sameFields_of_bytes hoff fun a ha => hfirst a ha (by omega)
  have hg : g = g' := by
    have := h.magic.symm.trans (hfields.magic.trans h'.magic)
    exact Option.some.inj this
  subst hg
  refine ⟨hfields, rfl, ?_⟩
  -- the number of directories stands in the second element
  rw [← hchecksum] at heq
  obtain ⟨-, htail⟩ := List.append_inj heq (by rw [peek_length, peek_length])
  have hopt : img.optionalHeader = img'.optionalHeader := by
    unfold Image.optionalHeader
    rw [hoff]
  have hfield : img.checkSum + 4 ≤ img.optionalHeader + g.numberOfRvaAndSizes
      ∧ g.numberOfRvaAndSizes + 4 = g.dataDirectory := by
    have hopt' : img.checkSum = img.optionalHeader + 64 := rfl
    cases g
    · exact ⟨by rw [hopt']; simp only [Magic.numberOfRvaAndSizes]; omega, rfl⟩
    · exact ⟨by rw [hopt']; simp only [Magic.numberOfRvaAndSizes]; omega, rfl⟩
  unfold Image.numberOfRvaAndSizes
  rw [← hopt]
  exact rd_congr fun a h1 h2 => eq_of_append_eq htail (by omega) (by omega) (by omega)

theorem SameFields.headers_eq (h : SameFields img img')
    (hnum : img.numberOfRvaAndSizes g = img'.numberOfRvaAndSizes g) :
    authenticodeHeaders img g = authenticodeHeaders img' g := by
  unfold authenticodeHeaders Image.checkSum Image.dataDirectory Image.optionalHeader
  rw [h.offset, h.sizeOfHeaders, hnum]

/-! ## The sections -/

theorem sectionAt_congr (h : ∀ a, p ≤ a → a < p + sizeofSectionHeader → m a = m' a) :
    sectionAt m p = sectionAt m' p := by
  have hfield : ∀ q, p ≤ q → q + 4 ≤ p + sizeofSectionHeader → rd m 4 q = rd m' 4 q :=
    fun q h1 h2 => rd_congr fun a h3 h4 => h a (by omega) (by omega)
  unfold sectionAt
  unfold sizeofSectionHeader at hfield
  rw [hfield _ (by omega) (by omega), hfield (p + 12) (by omega) (by omega),
    hfield (p + 16) (by omega) (by omega), hfield (p + 20) (by omega) (by omega)]

theorem sectionsFrom_congr : ∀ {n p : Nat},
    (∀ a, p ≤ a → a < p + sizeofSectionHeader * n → m a = m' a) →
    sectionsFrom m n p = sectionsFrom m' n p
  | 0, _, _ => rfl
  | n + 1, p, h => by
    have hfirst : sectionAt m p = sectionAt m' p := sectionAt_congr fun a h1 h2 => h a h1 (by
      unfold sizeofSectionHeader at *
      omega)
    have hrest : sectionsFrom m n (p + sizeofSectionHeader)
        = sectionsFrom m' n (p + sizeofSectionHeader) := sectionsFrom_congr fun a h1 h2 =>
      h a (by omega) (by
        unfold sizeofSectionHeader at *
        omega)
    rw [sectionsFrom, sectionsFrom, hfirst, hrest]

/-- The images agree in all that is looked at: the headers, outside of the two fields that
are left out, and the raw data of the sections. -/
structure SameContents (img img' : Image) (g : Magic) : Prop where
  sizeOfHeaders : img.sizeOfHeaders = img'.sizeOfHeaders
  headers : ∀ a, a < img.sizeOfHeaders → ¬ (img.checkSum ≤ a ∧ a < img.checkSum + 4) →
    ¬ (directoryEntrySecurity < img.numberOfRvaAndSizes g ∧
      img.dataDirectory g directoryEntrySecurity ≤ a ∧
      a < img.dataDirectory g directoryEntrySecurity + sizeofDataDirectory) →
    img.data a = img'.data a
  sections : img.sections = img'.sections
  raw : ∀ s ∈ img.sections, peek img.data s.pointerToRawData s.sizeOfRawData
    = peek img'.data s.pointerToRawData s.sizeOfRawData

theorem Sound.sameContents (h : Sound img g) (h' : Sound img' g')
    (heq : hashedBytes img (authenticode img g) = hashedBytes img' (authenticode img' g')) :
    SameContents img img' g := by
  obtain ⟨hfields, rfl, hnum⟩ := h.sameFields h' heq
  have hsame := hfields.headers_eq hnum
  obtain ⟨hcheck, hsec⟩ := h.fields
  have htable := h.table
  unfold authenticode at heq
  dsimp only at heq
  rw [← hsame] at heq
  have hpeek : ∀ e ∈ authenticodeHeaders img g,
      peek img.data e.addr e.len = peek img'.data e.addr e.len := by
    rw [List.append_assoc, List.append_assoc] at heq
    exact peek_eq_of_hashed heq
  have hheaders : ∀ a, a < img.sizeOfHeaders → ¬ (img.checkSum ≤ a ∧ a < img.checkSum + 4) →
      ¬ (directoryEntrySecurity < img.numberOfRvaAndSizes g ∧
        img.dataDirectory g directoryEntrySecurity ≤ a ∧
        a < img.dataDirectory g directoryEntrySecurity + sizeofDataDirectory) →
      img.data a = img'.data a := by
    intro a h1 h2 h3
    obtain ⟨e, he, ha1, ha2⟩ := (h.mem_headers a).mpr ⟨h1, h2, h3⟩
    exact eq_of_peek_eq (hpeek e he) ha1 ha2
  -- the section headers are behind both fields
  have hsections : img.sections = img'.sections := by
    have hstart : img.sectionHeaders = img'.sectionHeaders := by
      unfold Image.sectionHeaders Image.optionalHeader
      rw [hfields.offset, hfields.sizeOfOptionalHeader]
    unfold Image.sections
    rw [← hstart, ← hfields.numberOfSections]
    refine sectionsFrom_congr fun a h1 h2 => hheaders a (by omega) (by omega) ?_
    rintro ⟨hmore, -, h3⟩
    have := (hsec (Nat.not_le.mpr hmore)).2
    omega
  refine ⟨hfields.sizeOfHeaders, hheaders, hsections, fun s hs => ?_⟩
  by_cases hzero : s.sizeOfRawData = 0
  · rw [hzero]
    rfl
  · rw [← hsections] at heq
    refine peek_eq_of_hashed heq ⟨s.pointerToRawData, s.sizeOfRawData⟩ (List.mem_append_right _ ?_)
    refine List.mem_map.mpr ⟨s, List.mem_filter.mpr ⟨?_, by simpa using hzero⟩, rfl⟩
    exact (ascending_perm img.sections).mem_iff.mpr hs

/-! ## The coverage -/

/-- An image that is passed on is not hashed or hashed by the rule: the elements lie inside
the image, none of them is empty, those of the header are the headers without the two
fields, and the sections are in order. The hashed bytes tell the headers and the raw data
of every section. -/
theorem hashPeImage_covers :
    (∀ img : Image, img.passedOn = true → ∃ g, img.magic = some g ∧
      (∀ allocated, hashPeImage img allocated = .fail ∨
        (hashPeImage img allocated = .hash (authenticode img g)
          ∧ ∀ e ∈ authenticode img g, 0 < e.len ∧ e.addr + e.len ≤ img.size))
      ∧ (∀ a, (∃ e ∈ authenticodeHeaders img g, e.addr ≤ a ∧ a < e.addr + e.len) ↔
        a < img.sizeOfHeaders ∧ ¬ (img.checkSum ≤ a ∧ a < img.checkSum + 4) ∧
        ¬ (directoryEntrySecurity < img.numberOfRvaAndSizes g ∧
          img.dataDirectory g directoryEntrySecurity ≤ a ∧
          a < img.dataDirectory g directoryEntrySecurity + sizeofDataDirectory))
      ∧ (ascending img.sections).Perm img.sections ∧ Ascending (ascending img.sections))
    ∧ ∀ (img img' : Image) (allocated allocated' : Bool) (elements elements' : List Element),
      img.passedOn = true → img'.passedOn = true →
      hashPeImage img allocated = .hash elements →
      hashPeImage img' allocated' = .hash elements' →
      hashedBytes img elements = hashedBytes img' elements' →
      ∃ g, img.magic = some g ∧ SameContents img img' g := by
  constructor
  · intro img hpass
    obtain ⟨g, hsound⟩ := sound_of_passedOn hpass
    exact ⟨g, hsound.magic, hsound.hashPeImage_eq, hsound.mem_headers,
      ascending_perm _, ascending_ascending _⟩
  · intro img img' allocated allocated' elements elements' hpass hpass' hhash hhash' heq
    obtain ⟨g, hsound⟩ := sound_of_passedOn hpass
    obtain ⟨g', hsound'⟩ := sound_of_passedOn hpass'
    refine ⟨g, hsound.magic, hsound.sameContents hsound' ?_⟩
    have hrule : ∀ {img : Image} {g : Magic} {allocated : Bool} {elements : List Element},
        Sound img g → hashPeImage img allocated = .hash elements →
        elements = authenticode img g := by
      intro img g allocated elements hs hh
      rcases hs.hashPeImage_eq allocated with hf | ⟨hf, -⟩
      · exact absurd (hh.symm.trans hf) (by simp)
      · exact HashOutcome.hash.inj (hh.symm.trans hf)
    rwa [hrule hsound hhash, hrule hsound' hhash'] at heq

/-- A PE32+ image of 296 bytes without data directories, with headers of 192 bytes and a
section of 64 bytes at 232. -/
def gapImage : Image where
  data := poke (poke (poke (poke (poke (fun _ => 0) 0 [0x50, 0x45, 0, 0, 0x64, 0x86, 1])
    20 [112, 0, 0, 0, 0x0b, 2]) 80 [0, 16, 0, 0, 192]) 148 [0, 2, 0, 0, 64]) 156 [232]
  size := 296
  size_lt := by decide

/-- The same with another `CheckSum`. -/
def summedImage : Image := { gapImage with data := poke gapImage.data 88 [1, 2, 3, 4] }

theorem gapImage_passedOn : gapImage.passedOn = true := by decide +kernel

theorem gapImage_hash : hashPeImage gapImage true
    = .hash [⟨0, 88⟩, ⟨92, 100⟩, ⟨232, 64⟩, ⟨256, 40⟩] := by decide +kernel

theorem hashPeImage_covers_gap :
    (∃ g, gapImage.magic = some g ∧ ∀ allocated, hashPeImage gapImage allocated = .fail ∨
      hashPeImage gapImage allocated = .hash (authenticode gapImage g))
    ∧ ∃ g, gapImage.magic = some g ∧ SameContents gapImage summedImage g := by
  constructor
  · obtain ⟨g, hg, hhash, -⟩ := hashPeImage_covers.1 gapImage gapImage_passedOn
    exact ⟨g, hg, fun allocated => (hhash allocated).imp id And.left⟩
  · exact hashPeImage_covers.2 gapImage summedImage true true _ _ gapImage_passedOn
      (by decide +kernel) gapImage_hash
      (show _ = HashOutcome.hash [⟨0, 88⟩, ⟨92, 100⟩, ⟨232, 64⟩, ⟨256, 40⟩] by decide +kernel)
      (by decide +kernel)

/-- The bytes that stand behind all that is hashed before, and in front of the
certificates. -/
def bytesBehind (img : Image) (table : List Section) : List Element :=
  let stop := (table.filter (·.sizeOfRawData ≠ 0)).foldl
    (fun stop s => max stop (s.pointerToRawData + s.sizeOfRawData)) img.sizeOfHeaders
  let certificates := (img.secDataDir.map Prod.fst).getD img.size
  if stop < certificates then [⟨stop, certificates - stop⟩] else []

/-- The extra data is found by the sum of the sizes, not behind the last section: with a
gap between the sections, bytes of the last one are hashed once more. -/
theorem not_hashPeImage_covers : ¬ ∀ (img : Image) (g : Magic) (allocated : Bool)
    (elements : List Element), img.passedOn = true → img.magic = some g →
    hashPeImage img allocated = .hash elements →
    hashedBytes img elements = hashedBytes img (authenticodeHeaders img g
      ++ sectionElements (ascending img.sections) ++ bytesBehind img (ascending img.sections)) := by
  intro h
  have hbytes := h gapImage .hdr64 true _ gapImage_passedOn (by decide +kernel) gapImage_hash
  exact absurd (congrArg List.length hbytes) (by decide +kernel)

end BayTrail.SecureBoot
