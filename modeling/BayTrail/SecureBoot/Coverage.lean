import BayTrail.SecureBoot.Sorting

/-!
# Hashing a PE image: what is hashed

The elements that `HashPeImage` hands to the hash protocol are those of the Authenticode
rule, and the bytes of the headers and of every section can be told from the bytes that
are hashed.
-/

namespace BayTrail.SecureBoot

open BayTrail.Lib

/-! ## The rule -/

/-- The headers without the `CheckSum` field and the entry of the security directory. -/
def authenticodeHeaders (img : Image) (g : Magic) : List Element :=
  let checkSum := img.checkSum
  let security := img.dataDirectory g directoryEntrySecurity
  if img.numberOfRvaAndSizes g ≤ directoryEntrySecurity then
    [⟨0, checkSum⟩, ⟨checkSum + 4, img.sizeOfHeaders - (checkSum + 4)⟩]
  else
    [⟨0, checkSum⟩, ⟨checkSum + 4, security - (checkSum + 4)⟩,
      ⟨security + sizeofDataDirectory, img.sizeOfHeaders - (security + sizeofDataDirectory)⟩]

/-- The raw data of the sections that have some. -/
def sectionElements (table : List Section) : List Element :=
  (table.filter (·.sizeOfRawData ≠ 0)).map fun s => ⟨s.pointerToRawData, s.sizeOfRawData⟩

/-- `SUM_OF_BYTES_HASHED`. -/
def sumOfBytesHashed (img : Image) (table : List Section) : Nat :=
  img.sizeOfHeaders + (table.map (·.sizeOfRawData)).sum

/-- The extra data of the file, without as many bytes as the certificate table has. -/
def extraData (img : Image) (g : Magic) (table : List Section) : List Element :=
  let sum := sumOfBytesHashed img table
  if certSize img g + sum < img.size then [⟨sum, img.size - certSize img g - sum⟩] else []

def authenticode (img : Image) (g : Magic) : List Element :=
  let table := ascending img.sections
  authenticodeHeaders img g ++ sectionElements table ++ extraData img g table

/-- The bytes of the elements. -/
def hashedBytes (img : Image) (elements : List Element) : Bytes :=
  elements.flatMap fun e => peek img.data e.addr e.len

/-! ## What the checks of the headers give -/

variable {img : Image} {g : Magic}

theorem imageRead_iff {offset n : Nat} (h : img.imageRead offset n = true) :
    n ≤ (efiMaxAddress + 2 ^ 64 - offset) % 2 ^ 64 ∧ offset + n ≤ img.size := by
  unfold Image.imageRead at h
  split at h
  next => exact absurd h Bool.false_ne_true
  next h1 =>
    split at h
    next => exact absurd h Bool.false_ne_true
    next h2 => exact ⟨Nat.not_lt.mp h1, Nat.not_lt.mp h2⟩

/-- The headers of an image that is passed on. -/
structure Sound (img : Image) (g : Magic) : Prop where
  magic : img.magic = some g
  directories : img.numberOfRvaAndSizes g ≤ numberOfDirectoryEntries
  optional : img.sectionHeaders
    = img.optionalHeader + g.dataDirectory + img.numberOfRvaAndSizes g * sizeofDataDirectory
  table : img.sectionHeaders + sizeofSectionHeader * img.numberOfSections ≤ img.sizeOfHeaders
  inside : img.sectionHeaders < img.sizeOfHeaders
  headers : img.sizeOfHeaders ≤ img.size

theorem sound_of_passedOn (h : img.passedOn = true) : ∃ g, Sound img g := by
  unfold Image.passedOn Image.headerOk Image.peCoffLoaderGetImageInfo at h
  simp only [Bool.and_eq_true, decide_eq_true_eq] at h
  obtain ⟨⟨⟨⟨hinfo, -⟩, -⟩, -⟩, -⟩ := h
  split at hinfo
  next => exact absurd hinfo Bool.false_ne_true
  next g hg =>
    refine ⟨g, ?_⟩
    unfold Image.peCoffLoaderGetPeHeader Image.optionalHeaderOk at hinfo
    simp only [Bool.and_eq_true, decide_eq_true_eq] at hinfo
    obtain ⟨⟨⟨⟨⟨⟨⟨-, hread⟩, -⟩, hopt⟩, -⟩, -⟩, -⟩, -⟩ := hinfo
    obtain ⟨⟨⟨⟨⟨⟨⟨hnum, hsize⟩, -⟩, -⟩, hin⟩, -⟩, htable⟩, hlast⟩ := hopt
    -- the headers end below 4 GiB, so no sum of offsets wraps
    obtain ⟨hmax, -⟩ := imageRead_iff hread
    obtain ⟨-, hend⟩ := imageRead_iff hlast
    have hoffset : img.peCoffHeaderOffset < 2 ^ 32 := by
      unfold Image.peCoffHeaderOffset
      split
      · exact rd_lt _ _ _
      · decide
    have hopt16 : img.sizeOfOptionalHeader < 2 ^ 16 := rd_lt _ _ _
    have hdata : g.dataDirectory = 96 ∨ g.dataDirectory = 112 := by
      cases g
      · exact Or.inl rfl
      · exact Or.inr rfl
    have hheaders : img.sectionHeaders
        = img.peCoffHeaderOffset + 24 + img.sizeOfOptionalHeader := rfl
    have hmod : img.sectionHeaderOffset = img.sectionHeaders % 2 ^ 32 := rfl
    have hoptional : img.optionalHeader = img.peCoffHeaderOffset + 24 := rfl
    have hexact : img.sizeOfOptionalHeader
        = g.dataDirectory + img.numberOfRvaAndSizes g * sizeofDataDirectory := by
      unfold numberOfDirectoryEntries sizeofDataDirectory at *
      omega
    have hsmall : img.sectionHeaderOffset = img.sectionHeaders := by
      rw [hmod, hheaders]
      unfold efiMaxAddress sizeofHeaderUnion numberOfDirectoryEntries sizeofDataDirectory at *
      omega
    rw [hsmall] at hin htable
    refine ⟨hg, hnum, ?_, ?_, hin, by omega⟩
    · rw [hheaders, hexact, hoptional]
      omega
    · have := (Nat.le_div_iff_mul_le (by decide : 0 < sizeofSectionHeader)).mp htable
      rw [Nat.mul_comm] at this
      omega

/-- The `CheckSum` field and the security directory lie in front of the section headers. -/
theorem Sound.fields (h : Sound img g) :
    img.checkSum + 4 < img.sectionHeaders
    ∧ (¬ img.numberOfRvaAndSizes g ≤ directoryEntrySecurity →
      img.checkSum + 4 < img.dataDirectory g directoryEntrySecurity
      ∧ img.dataDirectory g directoryEntrySecurity + sizeofDataDirectory ≤ img.sectionHeaders) := by
  have hopt := h.optional
  have hdata : g.dataDirectory = 96 ∨ g.dataDirectory = 112 := by
    cases g
    · exact Or.inl rfl
    · exact Or.inr rfl
  unfold Image.checkSum Image.dataDirectory sizeofDataDirectory directoryEntrySecurity at *
  constructor
  · omega
  · intro
    omega

/-! ## The headers -/

theorem uintnSub_eq {a b : Nat} (hb : b ≤ a) (ha : a < 2 ^ 64) : uintnSub a b = a - b := by
  unfold uintnSub
  omega

theorem Sound.headerElements_eq (h : Sound img g) :
    headerElements img g = some (authenticodeHeaders img g) := by
  obtain ⟨hcheck, hsec⟩ := h.fields
  have hin := h.inside
  have hlt := h.headers.trans_lt img.size_lt
  have hpos : 0 < img.checkSum := Nat.succ_pos _
  unfold headerElements authenticodeHeaders
  dsimp only
  split
  next =>
    rw [uintnSub_eq (by omega) hlt, if_neg]
    simp only [List.any_cons, List.any_nil, Bool.or_false, Bool.or_eq_true, decide_eq_true_eq]
    omega
  next hnum =>
    obtain ⟨hsec1, hsec2⟩ := hsec hnum
    rw [uintnSub_eq (by omega) hlt, uintnSub_eq (by omega) (by omega), if_neg]
    simp only [List.any_cons, List.any_nil, Bool.or_false, Bool.or_eq_true, decide_eq_true_eq]
    omega

/-- The elements of the header are its bytes up to `SizeOfHeaders`, without the two
fields. -/
theorem Sound.mem_headers (h : Sound img g) (a : Nat) :
    (∃ e ∈ authenticodeHeaders img g, e.addr ≤ a ∧ a < e.addr + e.len) ↔
      a < img.sizeOfHeaders ∧ ¬ (img.checkSum ≤ a ∧ a < img.checkSum + 4) ∧
      ¬ (directoryEntrySecurity < img.numberOfRvaAndSizes g ∧
        img.dataDirectory g directoryEntrySecurity ≤ a ∧
        a < img.dataDirectory g directoryEntrySecurity + sizeofDataDirectory) := by
  obtain ⟨hcheck, hsec⟩ := h.fields
  have hin := h.inside
  unfold authenticodeHeaders
  dsimp only
  split
  next =>
    simp only [List.mem_cons, List.not_mem_nil, or_false, exists_eq_or_imp, exists_eq_left]
    omega
  next hnum =>
    obtain ⟨hsec1, hsec2⟩ := hsec hnum
    simp only [List.mem_cons, List.not_mem_nil, or_false, exists_eq_or_imp, exists_eq_left]
    omega

theorem Sound.headers_inside (h : Sound img g) :
    ∀ e ∈ authenticodeHeaders img g, 0 < e.len ∧ e.addr + e.len ≤ img.size := by
  obtain ⟨hcheck, hsec⟩ := h.fields
  have hin := h.inside
  have hheaders := h.headers
  have hpos : 0 < img.checkSum := Nat.succ_pos _
  unfold authenticodeHeaders
  dsimp only
  split
  next =>
    simp only [List.forall_mem_cons, List.not_mem_nil, false_implies, implies_true, and_true]
    omega
  next hnum =>
    obtain ⟨hsec1, hsec2⟩ := hsec hnum
    simp only [List.forall_mem_cons, List.not_mem_nil, false_implies, implies_true, and_true]
    omega

theorem authenticodeHeaders_length : (authenticodeHeaders img g).length ≤ 3
    ∧ 2 ≤ (authenticodeHeaders img g).length := by
  unfold authenticodeHeaders
  dsimp only
  split <;> simp

/-! ## The sections -/

theorem sectionsFrom_size (m : Mem) : ∀ (n p : Nat), ∀ s ∈ sectionsFrom m n p,
    s.sizeOfRawData < 2 ^ 32
  | 0, _, s, hs => absurd hs List.not_mem_nil
  | n + 1, p, s, hs => by
    unfold sectionsFrom at hs
    rcases List.mem_cons.mp hs with rfl | hs
    · exact rd_lt _ _ _
    · exact sectionsFrom_size m n _ s hs

/-- Step 13, as long as there is room for elements: the sum does not wrap. -/
theorem elementLoop_spec : ∀ (table : List Section) (elements : List Element) (sum : Nat),
    (∀ s ∈ table, s.sizeOfRawData < 2 ^ 32) → elements.length < maxElemNum →
    sum ≤ elements.length * 2 ^ 32 → sum ≤ img.size →
    elementLoop img table elements sum = .error .fail ∨
      (elementLoop img table elements sum
          = .ok (elements ++ sectionElements table, sum + (table.map (·.sizeOfRawData)).sum)
        ∧ (elements ++ sectionElements table).length < maxElemNum
        ∧ sum + (table.map (·.sizeOfRawData)).sum
          ≤ (elements ++ sectionElements table).length * 2 ^ 32
        ∧ sum + (table.map (·.sizeOfRawData)).sum ≤ img.size
        ∧ ∀ e ∈ sectionElements table, 0 < e.len ∧ e.addr + e.len ≤ img.size)
  | [], elements, sum, _, hlen, hsum, hin => by
    refine Or.inr ⟨?_, ?_, ?_, hin, fun e he => absurd he List.not_mem_nil⟩
    · rw [show sectionElements [] = [] from rfl, List.append_nil]
      rfl
    · rwa [show sectionElements [] = [] from rfl, List.append_nil]
    · rwa [show sectionElements [] = [] from rfl, List.append_nil]
  | s :: table, elements, sum, hsize, hlen, hsum, hin => by
    have hs := hsize s (by simp)
    have htable : ∀ u ∈ table, u.sizeOfRawData < 2 ^ 32 := fun u hu => hsize u (by simp [hu])
    rw [List.map_cons, List.sum_cons, ← Nat.add_assoc]
    unfold elementLoop
    by_cases hzero : s.sizeOfRawData = 0
    · have hskip : sectionElements (s :: table) = sectionElements table := by
        unfold sectionElements
        rw [List.filter_cons_of_neg (by simpa using hzero)]
      rw [if_pos hzero, hskip, hzero, Nat.add_zero]
      exact elementLoop_spec table elements sum htable hlen hsum hin
    · have helem : sectionElements (s :: table)
          = ⟨s.pointerToRawData, s.sizeOfRawData⟩ :: sectionElements table := by
        unfold sectionElements
        rw [List.filter_cons_of_pos (by simpa using hzero), List.map_cons]
      rw [if_neg hzero, helem]
      split
      next => exact Or.inl rfl
      next hplace =>
        unfold pushElement
        rw [if_neg (by omega)]
        by_cases hfull : maxElemNum ≤ elements.length + 1
        · rw [if_pos hfull]
          exact Or.inl rfl
        · rw [if_neg hfull]
          dsimp only
          have hmod : (sum + s.sizeOfRawData) % 2 ^ 64 = sum + s.sizeOfRawData := by
            unfold maxElemNum at hlen
            omega
          rw [hmod]
          split
          next => exact Or.inl rfl
          next hroom =>
            rw [List.append_cons elements _ (sectionElements table)]
            have hlen' : (elements ++ [Element.mk s.pointerToRawData s.sizeOfRawData]).length
                = elements.length + 1 := by simp
            rcases elementLoop_spec table (elements ++ [⟨s.pointerToRawData, s.sizeOfRawData⟩])
              (sum + s.sizeOfRawData) htable (by omega) (by omega) (by omega) with
              hfail | ⟨hok, hl, hb, hend, hall⟩
            · exact Or.inl hfail
            · refine Or.inr ⟨hok, hl, hb, hend, fun e he => ?_⟩
              rcases List.mem_cons.mp he with rfl | he
              · exact ⟨Nat.pos_of_ne_zero hzero, Nat.not_lt.mp hplace⟩
              · exact hall e he

theorem certSize_lt : certSize img g < 2 ^ 32 := by
  unfold certSize
  split
  · decide
  · exact rd_lt _ _ _

/-- Step 16. -/
theorem extraElement_spec (img : Image) (g : Magic) {elements : List Element} {table : List Section}
    (hlen : elements.length < maxElemNum)
    (hsum : sumOfBytesHashed img table ≤ elements.length * 2 ^ 32) :
    extraElement img g elements (sumOfBytesHashed img table) = .error .fail ∨
      (extraElement img g elements (sumOfBytesHashed img table)
          = .ok (elements ++ extraData img g table)
        ∧ ∀ e ∈ extraData img g table, 0 < e.len ∧ e.addr + e.len ≤ img.size) := by
  have hcert := @certSize_lt img g
  have hlt := img.size_lt
  unfold extraElement extraData
  dsimp only
  set sum := sumOfBytesHashed img table
  have hmod : (certSize img g + sum) % 2 ^ 64 = certSize img g + sum := by
    unfold maxElemNum at hlen
    omega
  rw [hmod]
  by_cases hmore : certSize img g + sum < img.size
  · rw [if_pos (by omega), if_pos hmore, if_pos hmore, uintnSub_eq (by omega) hlt,
      uintnSub_eq (by omega) (by omega)]
    unfold pushElement
    rw [if_neg (by omega)]
    split
    next => exact Or.inl rfl
    next =>
      refine Or.inr ⟨rfl, fun e he => ?_⟩
      rw [List.mem_singleton] at he
      subst he
      dsimp only
      omega
  · rw [if_neg hmore, if_neg hmore, List.append_nil]
    split
    next =>
      split
      next => exact Or.inl rfl
      next => exact Or.inr ⟨rfl, fun e he => absurd he List.not_mem_nil⟩
    next => exact Or.inr ⟨rfl, fun e he => absurd he List.not_mem_nil⟩

/-! ## The outcome -/

/-- The image is not hashed, or hashed by the rule, and every element lies inside it. -/
theorem Sound.hashPeImage_eq (h : Sound img g) (allocated : Bool) :
    hashPeImage img allocated = .fail ∨
      (hashPeImage img allocated = .hash (authenticode img g)
        ∧ ∀ e ∈ authenticode img g, 0 < e.len ∧ e.addr + e.len ≤ img.size) := by
  obtain ⟨hlen3, hlen2⟩ := @authenticodeHeaders_length img g
  have hsoh : img.sizeOfHeaders < 2 ^ 32 := rd_lt _ _ _
  unfold hashPeImage
  rw [h.magic]
  dsimp only
  rw [h.headerElements_eq]
  dsimp only
  split
  next => exact Or.inl rfl
  next =>
    split
    next => exact Or.inl rfl
    next =>
      rcases sortLoop_spec img img.numberOfSections img.sectionHeaders []
        List.Pairwise.nil with hsort | hsort
      · rw [List.nil_append, List.length_nil] at hsort
        rw [hsort]
        exact Or.inl rfl
      · have hsort' : sortLoop img img.numberOfSections 0 img.sectionHeaders
            (List.replicate img.numberOfSections Section.zero) = .ok (ascending img.sections) :=
          hsort
        rw [hsort']
        dsimp only
        have hsizes : ∀ s ∈ ascending img.sections, s.sizeOfRawData < 2 ^ 32 := fun s hs =>
          sectionsFrom_size _ _ _ s ((ascending_perm img.sections).mem_iff.mp hs)
        rcases elementLoop_spec (ascending img.sections) (authenticodeHeaders img g)
          img.sizeOfHeaders hsizes (by unfold maxElemNum; omega) (by omega) h.headers with
          hloop | ⟨hloop, hlen, hsum, -, hin⟩
        · rw [hloop]
          exact Or.inl rfl
        · rw [hloop]
          dsimp only
          change _ ≤ _ at hsum
          rcases extraElement_spec img g hlen hsum with hextra | ⟨hextra, hin'⟩
          · change extraElement img g _ (img.sizeOfHeaders + _) = _ at hextra
            rw [hextra]
            exact Or.inl rfl
          · change extraElement img g _ (img.sizeOfHeaders + _) = _ at hextra
            rw [hextra]
            refine Or.inr ⟨rfl, fun e he => ?_⟩
            rcases List.mem_append.mp he with he | he
            · rcases List.mem_append.mp he with he | he
              · exact h.headers_inside e he
              · exact hin e he
            · exact hin' e he

end BayTrail.SecureBoot
