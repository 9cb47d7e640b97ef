import BayTrail.Bds.Nested

/-!
# Variables that the operating system writes

What `BootXXXX` must look like that the boot manager reads nothing else, comes to an end, and accepts it
only if it is well-formed.
-/

namespace BayTrail.Bds

open BayTrail.Lib BayTrail.DevicePath

/-! ## The property -/

/-- A variable in memory. -/
structure Variable extends Buffer where
  size_lt : bytes.length < 2 ^ 62

/-- A header, a description with its terminator, and a list of paths as long as the header says, made of
well-formed nodes and ending in the end of a path. -/
def WellFormed (m : Buffer) : Prop :=
  ∃ c f, HasWord m 4 f ∧ Terminated m c loadOptionSize ∧ c + 2 + f ≤ m.bytes.length ∧ NodeList (m.from (c + 2)) 0 f

/-- Both functions return and read the variable only, and the first one accepts what is well-formed. -/
structure Harmless (m : Buffer) : Prop where
  returns : ∃ b, (isBootOptionValid m m.bytes.length).Returns b
  accepts : (isBootOptionValid m m.bytes.length).Returns true ↔ WellFormed m
  creates : (isBootOptionValid m m.bytes.length).Returns true → ∀ number priority,
    ∃ created, (createBootOptionsFromNvramOption m number ⟨0, m.bytes.length, priority⟩).Returns created

/-! ## What it depends on -/

/-- The validator's walk over the first path stops. If it comes to the path's end then the walk over the whole
list stops as well, and if that comes to the end of the list all nodes are well-formed. -/
def PathsStop (dp : Buffer) (filePathListLength : Nat) : Prop :=
  ValidStops dp 0 ∧ ((∃ e, ValidTo dp e 0) →
    ListStops dp 0 filePathListLength ∧ (ListTo dp 0 filePathListLength → NodeList dp 0 filePathListLength))

/-- The header is there, the walks over what is taken for the paths stop, and what is nested in a well-formed
option fits. -/
structure HarmlessWhen (m : Buffer) : Prop where
  header : loadOptionSize ≤ m.bytes.length
  paths : ∀ c f, HasWord m 4 f → headerSize ≤ f → loadOptionSize + 2 + f ≤ m.bytes.length →
    ScansTo m (m.bytes.length - f) c loadOptionSize → c ≠ m.bytes.length - f → PathsStop (m.from (c + 2)) f
  nested : WellFormed m → Fits m .option 0 m.bytes.length

/-! ## What IsBootOptionValid returns -/

section valid

variable {m : Buffer} {c f : Nat}

/-- The sizes do not leave room for a description and a path. -/
theorem isBootOptionValid_small (hf : HasWord m 4 f) (hsmall : ¬ (headerSize ≤ f ∧ loadOptionSize + 2 + f ≤ m.bytes.length)) :
    (isBootOptionValid m m.bytes.length).Returns false := by
  have hsize := hf.le
  simp only [headerSize, loadOptionSize] at hsmall
  refine Run.Returns.bind (returns_read16.mpr hf) ?_
  by_cases h1 : f < headerSize
  · rw [if_pos h1]
    exact Run.returns_pure.mpr rfl
  · rw [if_neg h1]
    simp only [headerSize] at h1
    by_cases h2 : m.bytes.length < loadOptionSize + 2
    · rw [if_pos h2]
      exact Run.returns_pure.mpr rfl
    · rw [if_neg h2]
      by_cases h3 : m.bytes.length - loadOptionSize ≤ f
      · rw [if_pos h3]
        exact Run.returns_pure.mpr rfl
      · rw [if_neg h3, if_pos (by simp only [loadOptionSize] at *; omega)]
        exact Run.returns_pure.mpr rfl

/-- Otherwise the description is scanned, and the paths behind it are walked over. -/
theorem isBootOptionValid_scanned (hf : HasWord m 4 f) (hfour : headerSize ≤ f) (hroom : loadOptionSize + 2 + f ≤ m.bytes.length)
    (hscan : ScansTo m (m.bytes.length - f) c loadOptionSize) {b : Bool} :
    (isBootOptionValid m m.bytes.length).Returns b ↔
      (c = m.bytes.length - f ∧ b = false) ∨ (c ≠ m.bytes.length - f ∧
        (((isValidDevicePath (m.from (c + 2)) 0).Returns true ∧ (Run.loop (listRound (m.from (c + 2))) (0, f)).Returns b)
          ∨ ((isValidDevicePath (m.from (c + 2)) 0).Returns false ∧ b = false))) := by
  have hrun := returns_read16.mpr hf
  have hend : loadOptionSize + (m.bytes.length - loadOptionSize - f) = m.bytes.length - f := by omega
  have hscan := hscan.returns
  rw [isBootOptionValid, readFilePathListLength, Nat.zero_add, Run.returns_bind]
  constructor
  · rintro ⟨f', hf', h⟩
    cases hrun.unique hf'
    rw [if_neg (by omega), if_neg (by omega), if_neg (by omega), if_neg (by omega)] at h
    rw [hend, Run.returns_bind] at h
    obtain ⟨c', hc', h⟩ := h
    cases hscan.unique hc'
    by_cases hc : c = m.bytes.length - f
    · rw [if_pos hc, Run.returns_pure] at h
      exact Or.inl ⟨hc, h.symm⟩
    · rw [if_neg hc, Run.returns_bind] at h
      obtain ⟨valid, hvalid, h⟩ := h
      cases valid with
      | true => exact Or.inr ⟨hc, Or.inl ⟨hvalid, h⟩⟩
      | false => exact Or.inr ⟨hc, Or.inr ⟨hvalid, (Run.returns_pure.mp h).symm⟩⟩
  · intro h
    refine ⟨f, hrun, ?_⟩
    rw [if_neg (by omega), if_neg (by omega), if_neg (by omega), if_neg (by omega), hend]
    refine hscan.bind ?_
    rcases h with ⟨hc, rfl⟩ | ⟨hc, ⟨hvalid, hlist⟩ | ⟨hvalid, rfl⟩⟩
    · rw [if_pos hc]
      exact Run.returns_pure.mpr rfl
    · rw [if_neg hc]
      exact hvalid.bind hlist
    · rw [if_neg hc]
      exact hvalid.bind (Run.returns_pure.mpr rfl)

theorem isValidDevicePath_true_iff {dp : Buffer} : (isValidDevicePath dp 0).Returns true ↔ ∃ e, ValidTo dp e 0 :=
  ⟨isValidDevicePath_true, fun ⟨_, h⟩ => h.returns⟩

section

variable (hf : HasWord m 4 f) (hfour : headerSize ≤ f) (hroom : loadOptionSize + 2 + f ≤ m.bytes.length)
  (hscan : ScansTo m (m.bytes.length - f) c loadOptionSize)
include hf hfour hroom hscan

/-- The walks stop exactly if it returns. -/
theorem isBootOptionValid_returns :
    (∃ b, (isBootOptionValid m m.bytes.length).Returns b) ↔
      (c ≠ m.bytes.length - f → ValidStops (m.from (c + 2)) 0 ∧ ((∃ e, ValidTo (m.from (c + 2)) e 0) → ListStops (m.from (c + 2)) 0 f)) := by
  constructor
  · rintro ⟨b, h⟩ hc
    rw [isBootOptionValid_scanned hf hfour hroom hscan] at h
    rcases h with ⟨hc', -⟩ | ⟨-, ⟨hvalid, hlist⟩ | ⟨hvalid, -⟩⟩
    · exact absurd hc' hc
    · exact ⟨isValidDevicePath_returns.mp ⟨true, hvalid⟩, fun _ => listLoop_returns.mp ⟨b, hlist⟩⟩
    · refine ⟨isValidDevicePath_returns.mp ⟨false, hvalid⟩, fun htrue => ?_⟩
      cases hvalid.unique (isValidDevicePath_true_iff.mpr htrue)
  · intro h
    by_cases hc : c = m.bytes.length - f
    · exact ⟨false, (isBootOptionValid_scanned hf hfour hroom hscan).mpr (Or.inl ⟨hc, rfl⟩)⟩
    · obtain ⟨hstops, hlist⟩ := h hc
      obtain ⟨valid, hvalid⟩ := isValidDevicePath_returns.mpr hstops
      cases valid with
      | true =>
        obtain ⟨b, hb⟩ := listLoop_returns.mpr (hlist (isValidDevicePath_true_iff.mp hvalid))
        exact ⟨b, (isBootOptionValid_scanned hf hfour hroom hscan).mpr (Or.inr ⟨hc, Or.inl ⟨hvalid, hb⟩⟩)⟩
      | false => exact ⟨false, (isBootOptionValid_scanned hf hfour hroom hscan).mpr (Or.inr ⟨hc, Or.inr ⟨hvalid, rfl⟩⟩)⟩

theorem isBootOptionValid_true :
    (isBootOptionValid m m.bytes.length).Returns true ↔
      c ≠ m.bytes.length - f ∧ (∃ e, ValidTo (m.from (c + 2)) e 0) ∧ ListTo (m.from (c + 2)) 0 f := by
  rw [isBootOptionValid_scanned hf hfour hroom hscan, ← isValidDevicePath_true_iff, ← listLoop_true]
  constructor
  · rintro (⟨-, h⟩ | ⟨hc, h | ⟨-, h⟩⟩)
    · cases h
    · exact ⟨hc, h⟩
    · cases h
  · exact fun ⟨hc, h⟩ => Or.inr ⟨hc, Or.inl h⟩

end

/-- A list that ends is in the variable, hence the description is scanned to its terminator. -/
theorem ListTo.terminated (hscan : ScansTo m (m.bytes.length - f) c loadOptionSize) (hlist : ListTo (m.from (c + 2)) 0 f)
    (hfour : headerSize ≤ f) : Terminated m c loadOptionSize ∧ c + 2 + f ≤ m.bytes.length := by
  have hle := hlist.le
  rw [Buffer.from, List.length_drop] at hle
  simp only [headerSize] at hfour
  exact ⟨hscan.terminated (by omega), by omega⟩

theorem NodeList.headerSize_le {dp : Buffer} {p left : Nat} (h : NodeList dp p left) : headerSize ≤ left := by
  cases h with
  | last => exact Nat.le_refl _
  | node => omega

end valid

/-! ## When it is harmless -/

section harmless

variable {m : Buffer} {c f : Nat}

/-- What is well-formed is accepted. -/
theorem WellFormed.accepted (h : WellFormed m) : (isBootOptionValid m m.bytes.length).Returns true := by
  obtain ⟨c, f, hf, hterm, hle, hlist⟩ := h
  have hfour := hlist.headerSize_le
  have hc := hterm.le
  have hlt := hf.lt
  simp only [headerSize] at hfour
  refine (isBootOptionValid_true hf hfour (by omega) (hterm.scansTo (by omega))).mpr ⟨by omega, ?_, hlist.listTo⟩
  exact hlist.validTo (by simp only [maxDpSize]; omega)

theorem Harmless.of_when (h : HarmlessWhen m) (hlt : m.bytes.length < 2 ^ 62) : Harmless m := by
  obtain ⟨hheader, hpaths, hnested⟩ := h
  obtain ⟨f, hf⟩ := exists_hasWord (m := m) (p := 4) hheader
  have haccepts : (isBootOptionValid m m.bytes.length).Returns true → WellFormed m := by
    intro htrue
    by_cases hroom : headerSize ≤ f ∧ loadOptionSize + 2 + f ≤ m.bytes.length
    · obtain ⟨hfour, hroom⟩ := hroom
      obtain ⟨c, hscan⟩ := exists_scansTo (m := m) (m.bytes.length - f) (p := loadOptionSize)
        (by simp only [headerSize] at hfour; omega) (by omega)
      obtain ⟨hc, hvalid, hlist⟩ := (isBootOptionValid_true hf hfour hroom hscan).mp htrue
      obtain ⟨hterm, hle⟩ := hlist.terminated hscan hfour
      exact ⟨c, f, hf, hterm, hle, ((hpaths c f hf hfour hroom hscan hc).2 hvalid).2 hlist⟩
    · cases htrue.unique (isBootOptionValid_small hf hroom)
  refine ⟨?_, ⟨haccepts, WellFormed.accepted⟩, fun htrue number priority => ?_⟩
  · by_cases hroom : headerSize ≤ f ∧ loadOptionSize + 2 + f ≤ m.bytes.length
    · obtain ⟨hfour, hroom⟩ := hroom
      obtain ⟨c, hscan⟩ := exists_scansTo (m := m) (m.bytes.length - f) (p := loadOptionSize)
        (by simp only [headerSize] at hfour; omega) (by omega)
      refine (isBootOptionValid_returns hf hfour hroom hscan).mpr fun hc => ?_
      obtain ⟨hstops, hlist⟩ := hpaths c f hf hfour hroom hscan hc
      exact ⟨hstops, fun hvalid => (hlist hvalid).1⟩
    · exact ⟨false, isBootOptionValid_small hf hroom⟩
  · have hend : EndsAt 0 m.bytes.length m.bytes.length := by
      rw [EndsAt]
      omega
    exact (createBootOptionsFromNvramOption_returns number (Nat.le_refl _) hlt hend priority).mpr (hnested (haccepts htrue))

theorem HarmlessWhen.of_harmless (h : Harmless m) (hlt : m.bytes.length < 2 ^ 62) : HarmlessWhen m := by
  obtain ⟨hreturns, haccepts, hcreates⟩ := h
  refine ⟨?_, fun c f hf hfour hroom hscan hc => ?_, fun hwell => ?_⟩
  · obtain ⟨b, h⟩ := hreturns
    rw [isBootOptionValid, Run.returns_bind] at h
    obtain ⟨f, hf, -⟩ := h
    exact (returns_read16.mp hf).le
  · obtain ⟨hstops, hlist⟩ := (isBootOptionValid_returns hf hfour hroom hscan).mp hreturns hc
    refine ⟨hstops, fun hvalid => ⟨hlist hvalid, fun hto => ?_⟩⟩
    obtain ⟨hterm, hle⟩ := hto.terminated hscan hfour
    obtain ⟨c', f', hf', hterm', hle', hnodes⟩ := haccepts.mp ((isBootOptionValid_true hf hfour hroom hscan).mpr ⟨hc, hvalid, hto⟩)
    obtain rfl := hf.unique hf'
    have hfour' := hnodes.headerSize_le
    simp only [headerSize] at hfour'
    obtain rfl := hscan.unique (hterm'.scansTo (by omega))
    exact hnodes
  · have hend : EndsAt 0 m.bytes.length m.bytes.length := by
      rw [EndsAt]
      omega
    exact (createBootOptionsFromNvramOption_returns 0 (Nat.le_refl _) hlt hend 0).mp
      (hcreates (haccepts.mpr hwell) 0 0)

end harmless

/-- A variable does no harm exactly if its header is there, the walks over its paths stop within it, no node is
shorter than a header or of an unknown type in a list that is accepted, and the nested options fit. -/
theorem bootVariable_harmless_iff (v : Variable) : Harmless v.toBuffer ↔ HarmlessWhen v.toBuffer :=
  ⟨fun h => .of_harmless h v.size_lt, fun h => .of_when h v.size_lt⟩

/-- An empty description, and an empty path with a node behind it that has no length. -/
def emptyNode : Variable :=
  ⟨⟨0, [1, 0, 0, 0, 12, 0, 0, 0, 0x7F, 0xFF, 4, 0, 1, 1, 0, 0, 0x7F, 0xFF, 4, 0]⟩, by simp⟩

/-- The loop over the list of paths stays at that node. -/
theorem not_bootVariable_harmless : ¬ ∀ v : Variable, Harmless v.toBuffer := by
  intro h
  have hwhen := HarmlessWhen.of_harmless (h emptyNode) emptyNode.size_lt
  have hscan : ScansTo emptyNode.toBuffer (emptyNode.bytes.length - 12) 6 loadOptionSize :=
    .stop ⟨0, 0, rfl, rfl, rfl⟩ fun h => h.1 rfl
  have hpaths := hwhen.paths 6 12 ⟨12, 0, rfl, rfl, rfl⟩ (by decide) (by decide) hscan (by decide)
  have hstops := (hpaths.2 ⟨0, .stop ⟨0x7F, rfl, Or.inl rfl, rfl⟩⟩).1
  obtain ⟨b, hb⟩ := listLoop_returns.mpr hstops
  have hfirst : (listRound (emptyNode.toBuffer.from 8) (0, 12)).Returns (.again (4, 8)) :=
    listRound_node (l := 4) ⟨4, 0, rfl, rfl, rfl⟩ (by decide)
  have hstays : (listRound (emptyNode.toBuffer.from 8) (4, 8)).Returns (.again (4, 8)) :=
    listRound_node (l := 0) ⟨0, 0, rfl, rfl, rfl⟩ (by decide)
  exact Run.not_ends_of_again hstays (hb.ends.again hfirst)

end BayTrail.Bds
