import BayTrail.Lib.Regions

/-!
# The services of the global coherency domain

`CoreConvertSpace` and `CoreAllocateSpace` of `Gcd.c` with all their operations and ways to allocate,
on the map of the memory space or of the I/O space: an entry for each region, the regions follow one another,
and they cover what the processor can address, which is less than 64 bits. What the services are for is said
of a function from addresses to entries: a change is one of the addresses of its range, and an allocation picks
a range that nobody has. The map represents the function, and each request keeps it so.
-/

namespace BayTrail.Gcd

open BayTrail.Lib BayTrail.Lib.Region

/-! ## Structures -/

inductive MemoryType where
  | nonExistent | reserved | systemMemory | memoryMappedIo
  deriving DecidableEq

inductive IoType where
  | nonExistent | reserved | io
  deriving DecidableEq

/-- `EFI_GCD_MAP_ENTRY` but for its addresses. A handle that is `NULL` is `none`. -/
structure Entry where
  capabilities : Nat
  attributes : Nat
  memoryType : MemoryType
  ioType : IoType
  imageHandle : Option Nat
  deviceHandle : Option Nat
  deriving DecidableEq

abbrev Map := List (Region Entry)

inductive Status where
  | success | invalidParameter | notFound | outOfResources | unsupported | accessDenied | notAvailableYet
  | deviceError
  deriving DecidableEq

/-- The arithmetic of a `UINT64`. -/
def uint64 (n : Nat) : Nat := n % 2 ^ 64

/-- `BaseAddress + Length - 1`. -/
def lastAddress (baseAddress length : Nat) : Nat := uint64 (baseAddress + length + (2 ^ 64 - 1))

/-- What is found: the base, and the regions around it. -/
structure Candidate where
  base : Nat
  pre : Map
  mid : Map
  post : Map

/-! ## Descriptors -/

/-- `GetMemorySpaceDescriptor` and `GetIoSpaceDescriptor`: the entry of an address. -/
def getSpaceDescriptor (baseAddress : Nat) (map : Map) : Option (Region Entry) :=
  (search baseAddress (lastAddress baseAddress 1) map).bind fun found => found.2.1.head?

section

variable {bits : Nat} {map : Map} {length maxAddress a : Nat}

/-- The last address of a range that does not wrap. -/
theorem lastAddress_eq {base : Nat} (hlength : 0 < length) (h : base + length ≤ 2 ^ 64) :
    lastAddress base length = base + length - 1 := by
  unfold lastAddress uint64
  omega

theorem getSpaceDescriptor_some (htiles : Tiles 0 (2 ^ bits) map) {r : Region Entry} (h : getSpaceDescriptor a map = some r) :
    r ∈ map ∧ r.base ≤ a ∧ a ≤ r.last := by
  obtain ⟨⟨pre, mid, post⟩, hsearch, hhead⟩ := Option.bind_eq_some_iff.mp h
  obtain ⟨m, m', hfound⟩ := search_spec htiles hsearch
  obtain ⟨r', rest, hmid, hr⟩ := hfound.first
  have hhead : mid.head? = some r := hhead
  rw [hmid] at hhead
  cases hhead
  refine ⟨?_, hr⟩
  rw [hfound.split, hmid]
  exact List.mem_append_right _ List.mem_cons_self

theorem getSpaceDescriptor_none (htiles : Tiles 0 (2 ^ bits) map) (ha : a < 2 ^ 64) (h : getSpaceDescriptor a map = none) :
    2 ^ bits ≤ a := by
  by_contra hlt
  have hlast : lastAddress a 1 = a := lastAddress_eq Nat.one_pos (by omega)
  obtain ⟨⟨pre, mid, post⟩, hsearch⟩ := Option.isSome_iff_exists.mp
    (search_some (Nat.le_refl a) htiles (Nat.zero_le _) (by omega))
  obtain ⟨m, m', hfound⟩ := search_spec htiles hsearch
  obtain ⟨r, rest, hmid, -⟩ := hfound.first
  unfold getSpaceDescriptor at h
  rw [hlast, hsearch, hmid] at h
  cases h

/-- The base that is tried in a region is such that the range ends in it, and at the maximum. -/
theorem candidate_le (alignment maxAddress : Nat) {last : Nat} (hlast : last < 2 ^ 63) (hlength : length ≤ last + 1)
    (hmax : length ≤ maxAddress + 1) :
    uint64 (min last maxAddress + 1 + (2 ^ 64 - length))
      - uint64 (min last maxAddress + 1 + (2 ^ 64 - length)) % 2 ^ alignment + length ≤ min last maxAddress + 1 := by
  have hend : uint64 (min last maxAddress + 1 + (2 ^ 64 - length)) + length = min last maxAddress + 1 := by
    unfold uint64
    omega
  omega

/-- What is tried in an entry of the map that is not passed over. -/
theorem tried_le (htiles : Tiles 0 (2 ^ bits) map) (hbits : bits < 64) (hlength : length < 2 ^ 64)
    (hmax : maxAddress < 2 ^ 64) (alignment : Nat) {r : Region Entry} (hr : r ∈ map)
    (hstart : ¬ maxAddress < uint64 (r.base + length)) (hlong : ¬ uint64 (r.last + 1) < length) :
    r.last < 2 ^ bits ∧ 2 ^ bits ≤ 2 ^ 63
    ∧ uint64 (min r.last maxAddress + 1 + (2 ^ 64 - length))
      - uint64 (min r.last maxAddress + 1 + (2 ^ 64 - length)) % 2 ^ alignment + length ≤ min r.last maxAddress + 1 := by
  have hmem := htiles.mem hr
  have hpow : 2 ^ bits ≤ 2 ^ 63 := Nat.pow_le_pow_right (by decide) (by omega)
  have hend : length ≤ r.last + 1 := by
    unfold uint64 at hlong
    omega
  have hle : r.base + length ≤ maxAddress := by
    unfold uint64 at hstart
    omega
  exact ⟨hmem.2.2, hpow, candidate_le alignment maxAddress (show r.last < 2 ^ 63 by omega) hend (by omega)⟩

end

end BayTrail.Gcd

namespace BayTrail.Gcd.Services

open BayTrail.Lib BayTrail.Lib.Region

def EFI_MEMORY_UC : Nat := 0x1
def EFI_MEMORY_WC : Nat := 0x2
def EFI_MEMORY_WT : Nat := 0x4
def EFI_MEMORY_WB : Nat := 0x8
def EFI_MEMORY_WP : Nat := 0x1000
def EFI_MEMORY_RUNTIME : Nat := 0x8000000000000000
def EFI_MEMORY_PORT_IO : Nat := 0x4000000000000000
def EFI_PAGE_SIZE : Nat := 0x1000

/-! ## CoreConvertSpace -/

/-- The operations of `CoreConvertSpace`, with what they are given. -/
inductive Operation where
  | addMemory (memoryType : MemoryType) (capabilities : Nat)
  | addIo (ioType : IoType)
  | free
  | removeMemory
  | removeIo
  | setAttributes (attributes : Nat)

/-- What an entry of the range is refused for. -/
def Operation.check (baseAddress length : Nat) (e : Entry) : Operation → Option Status
  | .addMemory _ _ => if e.memoryType ≠ .nonExistent ∨ e.imageHandle ≠ none then some .accessDenied else none
  | .addIo _ => if e.ioType ≠ .nonExistent ∨ e.imageHandle ≠ none then some .accessDenied else none
  | .free => if e.imageHandle = none then some .notFound else none
  | .removeMemory =>
    if e.memoryType = .nonExistent then some .notFound else if e.imageHandle ≠ none then some .accessDenied else none
  | .removeIo =>
    if e.ioType = .nonExistent then some .notFound else if e.imageHandle ≠ none then some .accessDenied else none
  | .setAttributes attributes =>
    if attributes &&& EFI_MEMORY_RUNTIME ≠ 0 ∧ (baseAddress % EFI_PAGE_SIZE ≠ 0 ∨ length % EFI_PAGE_SIZE ≠ 0) then
      some .invalidParameter
    else if e.capabilities &&& attributes ≠ attributes then some .unsupported
    else none

def Operation.apply : Operation → Entry → Entry
  | .addMemory memoryType capabilities, e =>
    { e with
      memoryType := memoryType
      capabilities := if memoryType = .memoryMappedIo then capabilities ||| EFI_MEMORY_RUNTIME ||| EFI_MEMORY_PORT_IO
        else capabilities ||| EFI_MEMORY_RUNTIME }
  | .addIo ioType, e => { e with ioType := ioType }
  | .free, e => { e with imageHandle := none, deviceHandle := none }
  | .removeMemory, e => { e with memoryType := .nonExistent, capabilities := 0 }
  | .removeIo, e => { e with ioType := .nonExistent }
  | .setAttributes attributes, e => { e with attributes := attributes }

/-- The cacheability among the attributes, if there is one. -/
def converToCpuArchAttributes (attributes : Nat) : Option Nat :=
  [EFI_MEMORY_UC, EFI_MEMORY_WC, EFI_MEMORY_WT, EFI_MEMORY_WB, EFI_MEMORY_WP].find? fun a => attributes &&& a = a

/-- Whether there is memory for two more entries, and `gCpu`, which may fail. -/
structure Environment where
  pool : Bool
  gCpu : Option (Nat → Nat → Nat → Bool)

/-- What the processor refuses the operation for. -/
def Environment.cpuStatus (env : Environment) (baseAddress length : Nat) : Operation → Option Status
  | .setAttributes attributes =>
    match converToCpuArchAttributes attributes, env.gCpu with
    | none, _ => none
    | some _, none => some .notAvailableYet
    | some a, some setMemoryAttributes => if setMemoryAttributes baseAddress length a then none else some .deviceError
  | _ => none

def convertSpace (env : Environment) (op : Operation) (baseAddress length : Nat) (map : Map) : Status × Map :=
  if length = 0 then (.invalidParameter, map)
  else
    match search baseAddress (lastAddress baseAddress length) map with
    | none => (.unsupported, map)
    | some (pre, mid, post) =>
      match mid.findSome? fun r => op.check baseAddress length r.val with
      | some status => (status, map)
      | none =>
        if !env.pool then (.outOfResources, map)
        else
          match env.cpuStatus baseAddress length op with
          | some status => (status, map)
          | none => (.success, convert baseAddress (lastAddress baseAddress length) op.apply pre mid post)

/-! ## CoreAllocateSpace -/

inductive AllocateType where
  | anySearchBottomUp | maxAddressSearchBottomUp | address | anySearchTopDown | maxAddressSearchTopDown
  deriving DecidableEq

/-- What an allocation is for. -/
inductive Kind where
  | memory (memoryType : MemoryType)
  | io (ioType : IoType)

/-- `CoreAllocateSpaceCheckEntry`. -/
def Kind.checkEntry (e : Entry) : Kind → Bool
  | .memory memoryType => e.imageHandle = none && e.memoryType = memoryType
  | .io ioType => e.imageHandle = none && e.ioType = ioType

section search

variable (map : Map) (kind : Kind) (alignment length maxAddress : Nat)

/-- The range is there, and all its entries can be used; or else the index of the entry that cannot, with
which the search goes on. -/
def tryRange (base : Nat) : Option (Candidate ⊕ Nat) :=
  (search base (lastAddress base length) map).map fun (pre, mid, post) =>
    match mid.findIdx? fun r => !kind.checkEntry r.val with
    | none => .inl ⟨base, pre, mid, post⟩
    | some j => .inr (pre.length + j)

/-- The loop over the entries from the bottom up, from the entry of index `i` on. -/
def searchUp : Nat → Nat → Nat → Nat × Option Candidate
  | 0, _, base => (base, none)
  | fuel + 1, i, base =>
    match map[i]? with
    | none => (base, none)
    | some r =>
      if kind.checkEntry r.val = false then searchUp fuel (i + 1) base
      else
        let up := uint64 (r.base + (2 ^ alignment - 1))
        let base := up - up % 2 ^ alignment
        if maxAddress < lastAddress base length then (base, none)
        else
          match tryRange map kind length base with
          | none => (base, none)
          | some (.inl c) => (base, some c)
          | some (.inr j) => searchUp fuel j base

/-- The loop over the entries from the top down, with so many entries to go. -/
def searchDown : Nat → Nat → Nat → Nat × Option Candidate
  | 0, _, base => (base, none)
  | _ + 1, 0, base => (base, none)
  | fuel + 1, left + 1, base =>
    match map[left]? with
    | none => (base, none)
    | some r =>
      if kind.checkEntry r.val = false ∨ maxAddress < uint64 (r.base + length) then searchDown fuel left base
      else if uint64 (r.last + 1) < length then (base, none)
      else
        let end' := uint64 (min r.last maxAddress + 1 + (2 ^ 64 - length))
        let base := end' - end' % 2 ^ alignment
        match tryRange map kind length base with
        | none => (base, none)
        | some (.inl c) => (base, some c)
        | some (.inr j) => searchDown fuel (j + 1) base

end search

/-- `EndAddress` of the last entry. -/
def endAddress (map : Map) : Nat := (map.getLast?.map Region.last).getD 0

/-- What an allocation finds. `base` is what it leaves in `*BaseAddress`. -/
def findSpace (type : AllocateType) (kind : Kind) (alignment length base : Nat) (map : Map) : Nat × Option Candidate :=
  match type with
  | .address =>
    if base % 2 ^ alignment ≠ 0 then (base, none)
    else
      match tryRange map kind length base with
      | some (.inl c) => (base, some c)
      | _ => (base, none)
  | .anySearchBottomUp => searchUp map kind alignment length (endAddress map) map.length 0 base
  | .maxAddressSearchBottomUp => searchUp map kind alignment length base map.length 0 base
  | .anySearchTopDown => searchDown map kind alignment length (endAddress map) map.length map.length base
  | .maxAddressSearchTopDown => searchDown map kind alignment length base map.length map.length base

/-- The new owner of an entry. -/
def own (imageHandle deviceHandle : Option Nat) (e : Entry) : Entry :=
  { e with imageHandle := imageHandle, deviceHandle := deviceHandle }

def allocateSpace (env : Environment) (type : AllocateType) (kind : Kind) (alignment length base : Nat)
    (imageHandle deviceHandle : Option Nat) (map : Map) : Status × Nat × Map :=
  if imageHandle = none then (.invalidParameter, base, map)
  else if 64 ≤ alignment then (.notFound, base, map)
  else if length = 0 then (.invalidParameter, base, map)
  else
    match findSpace type kind alignment length base map with
    | (base, none) => (.notFound, base, map)
    | (base, some c) =>
      if !env.pool then (.outOfResources, base, map)
      else (.success, base,
        convert base (lastAddress base length) (own imageHandle deviceHandle) c.pre c.mid c.post)

/-! ## Requests -/

/-- A call of the services. -/
inductive Request where
  | convert (op : Operation) (baseAddress length : Nat)
  | allocate (type : AllocateType) (kind : Kind) (alignment length base : Nat) (imageHandle deviceHandle : Option Nat)

/-- `CoreInternalAddMemorySpace` and `CoreAddIoSpace` ask for a type first. -/
def Operation.valid : Operation → Bool
  | .addMemory memoryType _ => memoryType ≠ .nonExistent
  | .addIo ioType => ioType ≠ .nonExistent
  | _ => true

/-- The status, the base of what is allocated, and the map. -/
def Request.perform (env : Environment) (map : Map) : Request → Status × Nat × Map
  | .convert op baseAddress length =>
    if !op.valid then (.invalidParameter, baseAddress, map)
    else
      let (status, map) := convertSpace env op baseAddress length map
      (status, baseAddress, map)
  | .allocate type kind alignment length base imageHandle deviceHandle =>
    allocateSpace env type kind alignment length base imageHandle deviceHandle map

/-- The statuses and bases of a run, and the map behind it. -/
def run : List (Environment × Request) → Map → List (Status × Nat) × Map
  | [], map => ([], map)
  | (env, q) :: qs, map =>
    let (status, base, map) := q.perform env map
    let (results, map) := run qs map
    ((status, base) :: results, map)

/-- The map in the beginning: nothing exists. -/
def initialMap (bits : Nat) : Map := [⟨0, 2 ^ bits - 1, ⟨0, 0, .nonExistent, .nonExistent, none, none⟩⟩]

/-! ## What it is for -/

abbrev Space := Nat → Entry

/-- A range of the space is changed. -/
def Space.update (space : Space) (base length : Nat) (f : Entry → Entry) : Space :=
  fun a => if base ≤ a ∧ a < base + length then f (space a) else space a

/-- A range of addresses, all of which have a property. -/
def Space.All (space : Space) (bits base length : Nat) (p : Entry → Prop) : Prop :=
  base + length ≤ 2 ^ bits ∧ ∀ a, base ≤ a → a < base + length → p (space a)

/-- A change of a range: the first address of the range that is refused decides, then the memory for the entries,
then the processor. -/
inductive Converts (bits : Nat) (env : Environment) (op : Operation) (base length : Nat) (space : Space) :
    Status → Space → Prop
  | invalid : op.valid = false ∨ length = 0 → Converts bits env op base length space .invalidParameter space
  | outside : op.valid = true → 0 < length → 2 ^ bits < base + length →
    Converts bits env op base length space .unsupported space
  | refused {a : Nat} {status : Status} : op.valid = true → base + length ≤ 2 ^ bits → base ≤ a → a < base + length →
    (∀ a', base ≤ a' → a' < a → op.check base length (space a') = none) → op.check base length (space a) = some status →
    Converts bits env op base length space status space
  | noMemory : op.valid = true → 0 < length → env.pool = false →
    space.All bits base length (fun e => op.check base length e = none) →
    Converts bits env op base length space .outOfResources space
  | byCpu {status : Status} : op.valid = true → 0 < length → env.pool = true →
    space.All bits base length (fun e => op.check base length e = none) → env.cpuStatus base length op = some status →
    Converts bits env op base length space status space
  | done : op.valid = true → 0 < length → env.pool = true →
    space.All bits base length (fun e => op.check base length e = none) → env.cpuStatus base length op = none →
    Converts bits env op base length space .success (space.update base length op.apply)

/-- A range that an allocation may have. -/
structure Fits (bits : Nat) (kind : Kind) (alignment length maxAddress : Nat) (space : Space) (base : Nat) : Prop where
  aligned : base % 2 ^ alignment = 0
  limit : base + length ≤ maxAddress + 1
  free : space.All bits base length (fun e => kind.checkEntry e = true)

/-- The last address that an allocation may use. -/
def AllocateType.limit (bits length base : Nat) : AllocateType → Nat
  | .address => base + length - 1
  | .maxAddressSearchBottomUp | .maxAddressSearchTopDown => base
  | .anySearchBottomUp | .anySearchTopDown => 2 ^ bits - 1

def AllocateType.fromTop : AllocateType → Bool
  | .anySearchTopDown | .maxAddressSearchTopDown => true
  | _ => false

/-- What an allocation picks: the range that is asked for if one is, from the bottom up the lowest that may be had. -/
structure Picks (bits : Nat) (type : AllocateType) (kind : Kind) (alignment length base : Nat) (space : Space) (base' : Nat) :
    Prop where
  asked : type = .address → base' = base
  fits : Fits bits kind alignment length (type.limit bits length base) space base'
  least : type ≠ .address → type.fromTop = false →
    ∀ b, Fits bits kind alignment length (type.limit bits length base) space b → base' ≤ b

/-- An allocation: the range that is picked gets an owner. From the top down not every range that may be had is
found. -/
inductive Allocates (bits : Nat) (env : Environment) (type : AllocateType) (kind : Kind) (alignment length base : Nat)
    (imageHandle deviceHandle : Option Nat) (space : Space) : Status → Nat → Space → Prop
  | invalid : imageHandle = none ∨ (alignment < 64 ∧ length = 0) →
    Allocates bits env type kind alignment length base imageHandle deviceHandle space .invalidParameter base space
  | alignment : imageHandle ≠ none → 64 ≤ alignment →
    Allocates bits env type kind alignment length base imageHandle deviceHandle space .notFound base space
  | none {base' : Nat} : imageHandle ≠ none → alignment < 64 → 0 < length →
    (type.fromTop = false → ∀ b, ¬ Picks bits type kind alignment length base space b) →
    Allocates bits env type kind alignment length base imageHandle deviceHandle space .notFound base' space
  | noMemory {base' : Nat} : env.pool = false → imageHandle ≠ none → alignment < 64 → 0 < length →
    Picks bits type kind alignment length base space base' →
    Allocates bits env type kind alignment length base imageHandle deviceHandle space .outOfResources base' space
  | done {base' : Nat} : env.pool = true → imageHandle ≠ none → alignment < 64 → 0 < length →
    Picks bits type kind alignment length base space base' →
    Allocates bits env type kind alignment length base imageHandle deviceHandle space .success base'
      (space.update base' length (own imageHandle deviceHandle))

def Request.Means (bits : Nat) (env : Environment) (space : Space) : Request → Status → Nat → Space → Prop
  | .convert op base length, status, _, space' => Converts bits env op base length space status space'
  | .allocate type kind alignment length base imageHandle deviceHandle, status, base', space' =>
    Allocates bits env type kind alignment length base imageHandle deviceHandle space status base' space'

/-- The numbers of a request are those of ranges that do not go around the end of the addresses. -/
def Request.Straight : Request → Prop
  | .convert _ base length => base + length ≤ 2 ^ 64
  | .allocate type _ _ length base _ _ => base < 2 ^ 64 ∧ length ≤ 2 ^ 63 ∧ (type = .address → base + length ≤ 2 ^ 64)

/-- A run of the services, as what it does to the space. -/
inductive Meant (bits : Nat) : Space → List (Environment × Request) → List (Status × Nat) → Space → Prop
  | nil {space : Space} : Meant bits space [] [] space
  | cons {space space' space'' : Space} {env : Environment} {q : Request} {qs : List (Environment × Request)}
      {status : Status} {base : Nat} {results : List (Status × Nat)} : q.Means bits env space status base space' →
      Meant bits space' qs results space'' → Meant bits space ((env, q) :: qs) ((status, base) :: results) space''

/-- The map is that of the space: its entries follow one another without a gap, and say of each address what it is. -/
structure Represents (bits : Nat) (map : Map) (space : Space) : Prop where
  tiles : Tiles 0 (2 ^ bits) map
  at_address : ∀ a < 2 ^ bits, At map a (space a)

end BayTrail.Gcd.Services
