import BayTrail.Nvram.Update

/-!
# The NVRAM store: enumeration and garbage collection

The name iteration of `NvramRead.c` and the copy routines of `NvramDxe.c`. A
garbage collection copies the variables of a store, one `CreateVariable` each, into
a store that has been erased: `CopyVariables` walks the source by name, as
`GetNextVariableName` does, and `CopyVarStore` prepares the target.
-/

namespace BayTrail.Nvram

open BayTrail.Lib

/-! ## Reading names -/

/-- The characters of the ASCII string at `p`, of `n` at most. -/
def asciiChars (m : Mem) : Nat → Nat → List UInt16
  | 0, _ => []
  | n + 1, p => if m p = 0 then [] else (m p).toUInt16 :: asciiChars m n (p + 1)

/-- The characters of the Unicode string at `p`, of `n` at most. -/
def unicodeChars (m : Mem) : Nat → Nat → List UInt16
  | 0, _ => []
  | n + 1, p => if rd m 2 p = 0 then [] else UInt16.ofNat (rd m 2 p) :: unicodeChars m n (p + 2)

theorem asciiChars_nonzero (m : Mem) : ∀ n p, 0 ∉ asciiChars m n p
  | 0, p => by simp [asciiChars]
  | n + 1, p => by
    unfold asciiChars
    split
    next h => simp
    next h =>
      have hne : ¬ (0 : UInt16) = (m p).toUInt16 := by
        intro he
        refine h (UInt8.toNat_inj.mp ?_)
        rw [← UInt8.toNat_toUInt16, ← he]
        rfl
      simp [asciiChars_nonzero m n (p + 1), hne]

theorem unicodeChars_nonzero (m : Mem) : ∀ n p, 0 ∉ unicodeChars m n p
  | 0, p => by simp [unicodeChars]
  | n + 1, p => by
    unfold unicodeChars
    split
    next h => simp
    next h =>
      have hlt : rd m 2 p < 2 ^ 16 := rd_lt m 2 p
      have hne : ¬ (0 : UInt16) = UInt16.ofNat (rd m 2 p) := by
        intro he
        have := congrArg UInt16.toNat he
        rw [UInt16.toNat_ofNat', Nat.mod_eq_of_lt hlt] at this
        exact h this.symm
      simp [unicodeChars_nonzero m n (p + 2), hne]

/-- The name in the header record at `p`. -/
def nameAt (s : StoreInfo) (p : Nat) : Name :=
  let a := nvGetName s.mem p
  if hasFlag s.mem p flagAsciiName then
    ⟨asciiChars s.mem s.nvramSize a, asciiChars_nonzero _ _ _⟩
  else ⟨unicodeChars s.mem s.nvramSize a, unicodeChars_nonzero _ _ _⟩

theorem nvGetGuid_length (s : StoreInfo) (p : Nat) : (nvGetGuid s p).length = 16 := by
  unfold nvGetGuid
  split <;> exact peek_length _ _ _

def guidAt (s : StoreInfo) (p : Nat) : Guid := ⟨nvGetGuid s p, nvGetGuid_length s p⟩

/-! ## Iteration by name -/

/-- What an iteration routine hands back: the status, `*VariableNameSize`, the name
and GUID stored for the caller (his own when nothing is stored) and the store. -/
structure NextResult where
  status : Status
  nameSize : Nat
  key : Name × Guid
  store : StoreInfo

/-- `NvGetNameFromNvar`; `bufferSize` is `*VariableNameSize` on entry. The name is
handed out in Unicode. -/
def nvGetNameFromNvar (s : StoreInfo) (p bufferSize : Nat) (key : Name × Guid) : NextResult :=
  let name := nameAt s p
  let nameSize := 2 * (name.chars.length + 1)
  if bufferSize < nameSize then ⟨.bufferTooSmall, nameSize, key, s⟩
  else ⟨.success, nameSize, (name, guidAt s p), { s with pLastReturned := some p }⟩

/-- The loop of `NvGetNextVariableNvar` over the variables without runtime access. -/
def runtimeLoop (s : StoreInfo) : Nat → Option Nat → Option Nat
  | 0, _ => none
  | _, none => none
  | fuel + 1, some p =>
    if hasFlag s.mem p flagRuntime then some p else runtimeLoop s fuel (nvGetNextValid s p)

/-- The record that the caller's name and GUID stand for: `pLastReturned` when it is
that variable, and the variable found otherwise. -/
def currentNvar (s : StoreInfo) (key : Name × Guid) : Option Nat :=
  match s.pLastReturned.filter fun p => nvIsVariable s p && (nvVarEq s p key.1 key.2).isSome with
  | some p => some p
  | none => (nvFindVariable s key.1 key.2).map Prod.fst

/-- `NvGetNextVariableNvar`. -/
def nvGetNextVariableNvar (s : StoreInfo) (key : Name × Guid) (runtime : Bool) :
    Status × Option Nat × StoreInfo :=
  let start : Option (Option Nat) :=
    if key.1.chars = [] then some (nvGetFirstValid s)
    else (currentNvar s key).bind fun p =>
      if runtime && !hasFlag s.mem p flagRuntime then none else some (nvGetNextValid s p)
  match start with
  | none => (.invalidParameter, none, s)
  | some next =>
    match if runtime then runtimeLoop s (s.pEndOfVars + 1) next else next with
    | none => (.notFound, none, { s with pLastReturned := none })
    | some p => (.success, some p, s)

/-- `NvGetNextVariableName`. -/
def nvGetNextVariableName (s : StoreInfo) (bufferSize : Nat) (key : Name × Guid)
    (runtime : Bool) : NextResult :=
  match nvGetNextVariableNvar s key runtime with
  | (status, none, s') => ⟨status, bufferSize, key, s'⟩
  | (_, some p, s') => nvGetNameFromNvar s' p bufferSize key

/-! ## EraseBytes -/

def isClean (m : Mem) (size : Nat) : Bool := (peek m 0 size).all (· == flashEmptyByte)

/-- The block loop of `NvErase`, `n` blocks from `p` on. -/
def eraseBlocks (blockSize : Nat) : Nat → Nat → Mem → Faults → Bool × Mem
  | 0, _, m, _ => (true, m)
  | n + 1, p, m, device =>
    if device = some 0 then (false, m)
    else eraseBlocks blockSize n (p + blockSize)
      (poke m p (List.replicate blockSize flashEmptyByte)) (device.map (· - 1))

/-- `MemErase` and `NvErase` of the whole area, which consists of flash blocks. -/
def eraseBytes (i : Interface) (blockSize : Nat) (m : Mem) (size : Nat) (device : Faults) :
    Bool × Mem :=
  match i with
  | .mem => (true, poke m 0 (List.replicate size flashEmptyByte))
  | .nv =>
    if isClean m size then (true, m) else eraseBlocks blockSize (size / blockSize) 0 m device

/-! ## CopyVariable, CopyVariables and CopyVarStore -/

/-- How the flash and the allocator answer one `CopyVarStore`. -/
structure CopyEnv where
  /-- not at runtime, or there is an `NvramDriverBuffer` -/
  buffer : Bool := true
  /-- `SelectiveAllocate` finds room for `TmpBuffer` -/
  tmpBuffer : Bool := true
  /-- the blocks erased -/
  erase : Faults := none
  /-- the header is written -/
  header : Bool := true
  /-- the calls of the variables copied, in turn -/
  vars : Nat → Faults := fun _ => none

/-- `CopyVariable`. A variable without `NVRAM_FLAG_AUTH_WRITE` has no authentication
attributes either, so that the flags passed for it are not looked at. -/
def copyVariable (cfg : Config) (i : Interface) (bufferSize : Nat) (src dst : StoreInfo)
    (key : Name × Guid) (device : Faults) : Status × StoreInfo :=
  match nvFindVariable src key.1 key.2 with
  | none => (.notFound, dst)
  | some (p, nameSize) =>
    let r := nvGetVariableFromNvar src (some p) nameSize bufferSize
    if r.status ≠ .success then (r.status, dst)
    else
      createVariable cfg i dst key.1 key.2 r.attributes r.data (hasFlag src.mem p flagGuid)
        (if hasFlag src.mem p flagAuthWrite then getVarAuthExtFlags src p ExtSecFlags.zero
         else ExtSecFlags.zero) device

/-- `FilterFunction` with its context: the variable is skipped. -/
abbrev Filter := StoreInfo → Name × Guid → Bool

/-- `SkipSpecificNvar`. -/
def skipSpecificNvar (skipVar : Option Nat) : Filter := fun s key =>
  match skipVar with
  | none => false
  | some p => (nvVarEq s p key.1 key.2).isSome

/-- `VarNotInPreserveList`. -/
def varNotInPreserveList (cfg : Config) (key : Name × Guid) : Bool :=
  !cfg.sdlVarLst.any fun entry => entry.2 = key.2 && entry.1 = key.1

structure CopyResult where
  status : Status
  /-- `SaveOnlyPreservedVars` afterwards. -/
  saveOnlyPreservedVars : Bool
  source : StoreInfo
  target : StoreInfo

/-- The loop of `CopyVariables`; `key` is `TmpName` and `Guid`, and `j` counts the
variables copied. A step goes on to the next record, so that the fuel of a walk is
enough when no name is empty. -/
def copyLoop (cfg : Config) (i : Interface) (filter : Filter) (preserved : Bool)
    (device : Nat → Faults) : Nat → Nat → StoreInfo → StoreInfo → Name × Guid → CopyResult
  | 0, _, src, dst, _ => ⟨.notFound, false, src, dst⟩
  | fuel + 1, j, src, dst, key =>
    let next := nvGetNextVariableName src src.nvramSize key false
    if next.status ≠ .success then
      ⟨if next.status = .notFound then .success else next.status, false, next.store, dst⟩
    else if filter next.store next.key || preserved && varNotInPreserveList cfg next.key then
      copyLoop cfg i filter preserved device fuel j next.store dst next.key
    else
      let copied := copyVariable cfg i src.nvramSize next.store dst next.key (device j)
      if copied.1 ≠ .success ∧ copied.1 ≠ .notFound then
        ⟨copied.1, false, next.store, copied.2⟩
      else copyLoop cfg i filter preserved device fuel (j + 1) next.store copied.2 next.key

theorem noName_nonzero : (0 : UInt16) ∉ [] := List.not_mem_nil

/-- `TmpName[0]=0`, with whatever stands in `Guid`. -/
def noName : Name × Guid := (⟨[], noName_nonzero⟩, ⟨List.replicate 16 0, guidZero_length⟩)

/-- `CopyVariables`; `preserved` is `SaveOnlyPreservedVars`. -/
def copyVariables (cfg : Config) (i : Interface) (src dst : StoreInfo) (filter : Filter)
    (preserved : Bool) (env : CopyEnv) : CopyResult :=
  if !env.tmpBuffer then ⟨.outOfResources, preserved, src, dst⟩
  else copyLoop cfg i filter preserved env.vars (src.pEndOfVars + 1) 0 src dst noName

/-- `CopyVarStore`; of `dst` the area, the size and the flags are initialized. -/
def copyVarStore (cfg : Config) (i : Interface) (src dst : StoreInfo) (filter : Filter)
    (preserved : Bool) (env : CopyEnv) : CopyResult :=
  if !env.buffer then ⟨.outOfResources, preserved, src, dst⟩
  else
    let erased := eraseBytes i cfg.flashBlockSize dst.mem dst.nvramSize env.erase
    let dst := { dst with
      mem := erased.2
      pFirstVar := cfg.headerLength
      pEndOfVars := cfg.headerLength
      lastVarSize := 0
      pLastReturned := none
      nextGuid := 0 }
    if !erased.1 then ⟨.deviceError, preserved, src, dst⟩
    else
      let header : Step := ⟨0, peek src.mem 0 cfg.headerLength, 0⟩
      if effective i dst.mem [header] (if env.header then none else some 0) ≠ none then
        ⟨.deviceError, preserved, src, dst⟩
      else copyVariables cfg i src { dst with mem := header.apply dst.mem } filter preserved env

/-- `InitVolatileStore` over the memory it allocates. -/
def initVolatileStore (size headerLength : Nat) (flags : StoreFlags) : StoreInfo :=
  nvInitInfoBuffer (fun _ => flashEmptyByte) size headerLength flags

end BayTrail.Nvram
