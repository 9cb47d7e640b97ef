import Mathlib.Data.UInt

/-!
# Guarded accesses

Computations that access memory that is not their own, and ask before they do so whether a range of
it may be accessed. `Confined` says that every access is to a range that has been granted.
-/

namespace BayTrail.Lib

/-- `fault` follows a pointer to nowhere. -/
inductive Guarded (α : Type) where
  | done (a : α)
  | ask (address : UInt64) (size : Nat) (k : Bool → Guarded α)
  | read (address : UInt64) (k : UInt8 → Guarded α)
  | write (address : UInt64) (value : UInt8) (k : Guarded α)
  | fault

namespace Guarded

variable {α β : Type}

def bind : Guarded α → (α → Guarded β) → Guarded β
  | done a, f => f a
  | ask address size k, f => ask address size fun b => (k b).bind f
  | read address k, f => read address fun b => (k b).bind f
  | write address value k, f => write address value (k.bind f)
  | fault, _ => fault

instance : Monad Guarded where
  pure := done
  bind := bind

/-- A number of so many bytes, the lowest first. -/
def readBytes : Nat → UInt64 → Guarded Nat
  | 0, _ => pure 0
  | n + 1, address => do
    let b ← read address pure
    let r ← readBytes n (address + 1)
    return b.toNat + 256 * r

def writeAll : UInt64 → List UInt8 → Guarded Unit
  | _, [] => pure ()
  | address, b :: l => write address b (writeAll (address + 1) l)

/-- The bytes of a number, the lowest first. -/
def bytesOf : Nat → Nat → List UInt8
  | 0, _ => []
  | n + 1, v => UInt8.ofNat v :: bytesOf n (v / 256)

def writeBytes (n : Nat) (address : UInt64) (v : Nat) : Guarded Unit := writeAll address (bytesOf n v)

/-- A range that has been granted covers the address. -/
def Covered (granted : List (UInt64 × Nat)) (address : UInt64) : Prop := ∃ r ∈ granted, (address - r.1).toNat < r.2

/-- Every access is to what has been granted before. -/
def Confined (grants : UInt64 → Nat → Bool) : List (UInt64 × Nat) → (UInt64 → UInt8) → Guarded α → Prop
  | _, _, done _ => True
  | granted, memory, ask address size k =>
    Confined grants (if grants address size then (address, size) :: granted else granted) memory (k (grants address size))
  | granted, memory, read address k => Covered granted address ∧ Confined grants granted memory (k (memory address))
  | granted, memory, write address value k =>
    Covered granted address ∧ Confined grants granted (fun a => if a = address then value else memory a) k
  | _, _, fault => False

variable {grants : UInt64 → Nat → Bool} {granted : List (UInt64 × Nat)} {memory : UInt64 → UInt8} {x : Guarded α} {f : α → Guarded β}
  {address : UInt64} {n : Nat}

theorem read_bind (k : UInt8 → Guarded α) : (read address k >>= f) = read address fun b => k b >>= f := rfl

theorem pure_bind (a : α) : (pure a >>= f) = f a := rfl

/-- What is confined is so from its start on. -/
theorem Confined.of_bind (h : Confined grants granted memory (x >>= f)) : Confined grants granted memory x := by
  induction x generalizing granted memory with
  | done a => trivial
  | ask address size k ih => exact ih _ h
  | read address k ih => exact ⟨h.1, ih _ h.2⟩
  | write address value k ih => exact ⟨h.1, ih h.2⟩
  | fault => exact h

theorem Confined.readBytes (h : Confined grants granted memory (readBytes (n + 1) address)) : Covered granted address := h.1

/-- One granted byte covers itself only. -/
theorem covered_byte {a : UInt64} : Covered [(a, 1)] address ↔ address = a := by
  constructor
  · rintro ⟨r, hr, hlt⟩
    obtain rfl := List.mem_singleton.mp hr
    have hzero : address - a = 0 := by
      rw [← UInt64.toNat_inj]
      exact Nat.lt_one_iff.mp hlt
    rwa [sub_eq_zero] at hzero
  · rintro rfl
    refine ⟨_, List.mem_singleton_self _, ?_⟩
    show (address - address).toNat < 1
    rw [sub_self]
    decide

end Guarded

end BayTrail.Lib
