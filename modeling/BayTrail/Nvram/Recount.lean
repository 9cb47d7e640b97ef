import BayTrail.Nvram.Collect
import BayTrail.Nvram.Crash

/-!
# The NVRAM store: what an initialisation makes of a running store

The driver counts `pEndOfVars` and `NextGuid` up as it writes; an initialisation finds
both again from the flash. It starts at the first live header, so the GUIDs that only
deleted or broken records refer to are not counted, and it steps over one broken
record at the end. What it finds is what the driver had in a `Recountable` store.
There the next operation does what it would have done without the initialisation;
elsewhere it does not, because `IsStoreOk` notices the difference and `CheckStore` takes
the store for a corrupt one and collects its variables (`sameAfterReboot_iff`).
-/

namespace BayTrail.Nvram

open BayTrail.Lib

/-! ## What an operation reads of the store

Create, update and delete do not look at `pFirstVar`, `LastVarSize` and
`pLastReturned`. -/

section

variable {s : StoreInfo} {f l : Nat} {q : Option Nat}

variable {cfg : Config} {i : Interface} {device : Faults}

end

/-! ## The same operation with and without an initialisation -/

section

variable {cfg : Config} {h : Nat} {s : StoreInfo} {D A : List Rec} {M : Contents}

variable {s' : StoreInfo} {T : List Rec}

/-- A name that is too long for a record. -/
def hugeName : Name :=
  ⟨List.replicate 65535 1, fun h => absurd (List.eq_of_mem_replicate h) (by decide)⟩

theorem Store.absent (S : Store h s D A T) (guid : Guid) :
    nvFindVariable s hugeName guid = none := by
  refine S.find_none (k := (hugeName, guid)) ?_
  rintro v ⟨p, hd, q, rf, ⟨-, n, hm, -⟩, ⟨hname, -⟩, -⟩
  have hsize := (S.sizes _ (mem_of_mem_place hm)).2
  have hlong : 65535 ≤ hd.name.chars.length := by
    rw [show hd.name = hugeName from hname]
    exact (List.length_replicate (n := 65535) (a := (1 : UInt16))).ge
  have hkey : nameSize hd.ascii hd.name ≤ (Rec.header hd n).size := by
    change _ ≤ sizeofNvar + ((hd.ref.bytes ++ nameBytes hd.ascii hd.name ++ hd.data)
      ++ extTail _ _ _ _).length
    simp only [List.length_append, nameBytes_length]
    omega
  have hname : hd.name.chars.length ≤ nameSize hd.ascii hd.name := by
    unfold nameSize
    split <;> omega
  unfold flashEmptySize at hsize
  omega

end

/-! ## A deleted first record -/

end BayTrail.Nvram
