import BayTrail.Lib.Links
import BayTrail.Lib.Run

/-!
# SortList on its links

`DListInit` and `DListAdd` of `EfiLib.c`, and `SortList` of `BootOptions.c` with every link that
it follows and sets. A step that follows a null pointer has no outcome.
-/

namespace BayTrail.Bds.DList

open BayTrail.Lib

variable {ν : Type} [DecidableEq ν]

def dListInit : ListEnds ν := ⟨none, none, 0⟩

def dListAdd (h : Links ν) (d : ListEnds ν) (e : ν) : Option (Links ν × ListEnds ν) :=
  let next := Function.update h.next e none
  let prev := Function.update h.prev e d.tail
  if d.head.isNone then some (⟨next, prev⟩, ⟨some e, some e, d.size + 1⟩)
  else d.tail.map fun t => (⟨Function.update next t (some e), prev⟩, ⟨d.head, some e, d.size + 1⟩)

/-- The loop over the first run, with so many steps left: `pSize` and `q`. -/
def runLoop (next : ν → Option ν) : Nat → ν → Nat → Nat × Option ν
  | 0, q, pSize => (pSize, some q)
  | n + 1, q, pSize =>
    match next q with
    | none => (pSize + 1, none)
    | some q => runLoop next n q (pSize + 1)

/-- The variables of the merge of two runs. -/
structure Merge (ν : Type) where
  links : Links ν
  mergeList : ListEnds ν
  p : Option ν
  q : Option ν
  pSize : Nat
  qSize : Nat

def takeP (s : Merge ν) : Run (Next (Merge ν) (Merge ν)) := do
  let e ← Run.ofOption s.p
  let r ← Run.ofOption (dListAdd s.links s.mergeList e)
  return .again { s with links := r.1, mergeList := r.2, p := s.links.next e, pSize := s.pSize - 1 }

def takeQ (s : Merge ν) : Run (Next (Merge ν) (Merge ν)) := do
  let e ← Run.ofOption s.q
  let r ← Run.ofOption (dListAdd s.links s.mergeList e)
  return .again { s with links := r.1, mergeList := r.2, q := s.links.next e, qSize := s.qSize - 1 }

def comparedTake (compare : ν → ν → Int) (s : Merge ν) : Run (Next (Merge ν) (Merge ν)) := do
  let p ← Run.ofOption s.p
  let q ← Run.ofOption s.q
  if compare p q > 0 then takeQ s else takeP s

def mergeRound (compare : ν → ν → Int) (s : Merge ν) : Run (Next (Merge ν) (Merge ν)) :=
  if s.pSize > 0 ∨ (s.qSize > 0 ∧ s.q.isSome) then
    if s.pSize = 0 then takeQ s
    else if s.qSize = 0 ∨ s.q.isNone then takeP s
    else comparedTake compare s
  else return .done s

/-- The variables of one pass. -/
structure Pass (ν : Type) where
  links : Links ν
  mergeList : ListEnds ν
  p : Option ν
  noMerges : UInt32

def passRound (compare : ν → ν → Int) (inSize : Nat) (s : Pass ν) : Run (Next (Pass ν) (Pass ν)) :=
  match s.p with
  | none => pure (.done s)
  | some p => do
    let run := runLoop s.links.next inSize p 0
    let m ← Run.loop (mergeRound compare) ⟨s.links, s.mergeList, some p, run.2, run.1, inSize⟩
    return .again ⟨m.links, m.mergeList, m.q, s.noMerges + 1⟩

/-- The variables of the sort. -/
structure Sorting (ν : Type) where
  links : Links ν
  mergeList : ListEnds ν
  inSize : UInt64

def sortRound (compare : ν → ν → Int) (s : Sorting ν) : Run (Next (Sorting ν) (Links ν × ListEnds ν)) := do
  let r ← Run.loop (passRound compare s.inSize.toNat) ⟨s.links, dListInit, s.mergeList.head, 0⟩
  if r.noMerges ≤ 1 then return .done (r.links, r.mergeList)
  else return .again ⟨r.links, r.mergeList, s.inSize * 2⟩

def sortList (compare : ν → ν → Int) (h : Links ν) (d : ListEnds ν) : Run (Links ν × ListEnds ν) :=
  if d.size ≤ 1 then return (h, d)
  else Run.loop (sortRound compare) ⟨h, d, 1⟩

end BayTrail.Bds.DList
