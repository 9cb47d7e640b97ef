import BayTrail.SecureBoot.Validate

/-!
# FindInSignatureDb

The signatures of an append that are in the database already are taken out of the payload, in
place. Every access is checked against the payload, which ends with `*DataSize`, or against
the database; a division by zero and a loop that does not end stop the run as well.
-/

namespace BayTrail.SecureBoot.Filter

open BayTrail.Lib
open BayTrail.SecureBoot.Validate

/-! ## Buffers -/

inductive Stop where
  | outside | divideByZero | outOfFuel
  deriving DecidableEq

/-- Bytes of the caller, or of a variable: where they are, and how many. -/
structure Buf where
  mem : Mem
  base : Nat
  size : Nat

def Buf.bytes (b : Buf) : Bytes := peek b.mem b.base b.size

/-- `n` bytes at `p` are read. -/
def Buf.load (b : Buf) (p n : Nat) : Except Stop Bytes :=
  if b.base ≤ p ∧ p + n ≤ b.base + b.size then .ok (peek b.mem p n) else .error .outside

def Buf.load32 (b : Buf) (p : Nat) : Except Stop Nat :=
  if b.base ≤ p ∧ p + 4 ≤ b.base + b.size then .ok (rd b.mem 4 p) else .error .outside

/-- A difference in a `UINTN`. -/
def uintnSub (x y : Nat) : Nat := (x + 2 ^ 64 - y) % 2 ^ 64

/-! ## FindInSignatureDb -/

/-- `SigCount`, and `SigCountNew`. -/
def signatureCount (b : Buf) (list : Nat) : Except Stop Nat := do
  let listSize ← b.load32 (list + 16)
  let headerSize ← b.load32 (list + 20)
  let size ← b.load32 (list + 24)
  if size = 0 then throw .divideByZero
  return uintnSub (uintnSub listSize sizeofSignatureList) headerSize / size % 2 ^ 32

/-- The first signature of a list. -/
def firstItem (b : Buf) (list : Nat) : Except Stop Nat := do
  let headerSize ← b.load32 (list + 20)
  return list + sizeofSignatureList + headerSize

/-- A list with a single signature goes as a whole: what follows is moved down. -/
def discardList (b : Buf) (list left : Nat) : Except Stop (Buf × Nat) := do
  let listSize ← b.load32 (list + 16)
  let left := uintnSub left listSize
  let rest ← b.load (list + listSize) left
  return ({ b with mem := poke b.mem list rest, size := uintnSub b.size listSize }, left)

/-- One signature of several goes: what follows is moved down, and the list is shortened. -/
def discardItem (b : Buf) (list item : Nat) : Except Stop Buf := do
  let size ← b.load32 (list + 24)
  let rest ← b.load (item + size) (uintnSub (b.base + b.size) (item + size))
  let b := { b with mem := poke b.mem item rest }
  let listSize ← b.load32 (list + 16)
  let size ← b.load32 (list + 24)
  return { b with
    mem := poke b.mem (list + 16) (leBytes 4 (listSize + 2 ^ 32 - size))
    size := uintnSub b.size size }

/-- Nothing but the header is left of the list. -/
def isEmptyList (b : Buf) (list : Nat) : Except Stop Bool := do
  let listSize ← b.load32 (list + 16)
  let headerSize ← b.load32 (list + 20)
  return uintnSub (uintnSub listSize sizeofSignatureList) headerSize = 0

/-- The loop over the signatures of a list of the payload, for one signature of the database:
`n` signatures are left, and `left` is `SigNewSize`. -/
def itemLoop (db : Buf) (sigList sigItem sigListNew sigCountNew : Nat) :
    Nat → Nat → Buf → Nat → Except Stop (Buf × Nat × Bool)
  | 0, _, b, left => return (b, left, false)
  | n + 1, item, b, left => do
    let size ← db.load32 (sigList + 24)
    let old ← db.load (sigItem + sizeofGuid) (uintnSub size sizeofGuid)
    let new ← b.load (item + sizeofGuid) (uintnSub size sizeofGuid)
    if old ≠ new then
      let sizeNew ← b.load32 (sigListNew + 24)
      itemLoop db sigList sigItem sigListNew sigCountNew n (item + sizeNew) b left
    else if sigCountNew = 1 then
      let r ← discardList b sigListNew left
      return (r.1, r.2, true)
    else
      let b ← discardItem b sigListNew item
      if ← isEmptyList b sigListNew then return (b, left, false)
      else itemLoop db sigList sigItem sigListNew sigCountNew n item b left

/-- One list of the payload: what is left of it, `SigNewSize` and `bSigMatch`. -/
def listStep (db : Buf) (sigList sigItem sigListNew : Nat) (b : Buf) (left : Nat) :
    Except Stop (Buf × Nat × Bool) := do
  let item ← firstItem b sigListNew
  let count ← signatureCount b sigListNew
  let type ← db.load sigList sizeofGuid
  let typeNew ← b.load sigListNew sizeofGuid
  let size ← db.load32 (sigList + 24)
  let sizeNew ← b.load32 (sigListNew + 24)
  if type = typeNew ∧ size = sizeNew then itemLoop db sigList sigItem sigListNew count count item b left
  else return (b, left, false)

/-- The loop over the lists of the payload. -/
def newLoop (db : Buf) (sigList sigItem : Nat) : Nat → Nat → Buf → Nat → Except Stop Buf
  | 0, _, _, _ => throw .outOfFuel
  | fuel + 1, sigListNew, b, left =>
    if left = 0 then return b
    else do
      let listSize ← b.load32 (sigListNew + 16)
      if left < listSize then return b
      else
        let r ← listStep db sigList sigItem sigListNew b left
        if r.2.2 then newLoop db sigList sigItem fuel sigListNew r.1 r.2.1
        else
          let listSize ← r.1.load32 (sigListNew + 16)
          newLoop db sigList sigItem fuel (sigListNew + listSize) r.1 (uintnSub r.2.1 listSize)

/-- The loop over the signatures of a list of the database. -/
def dbItemLoop (fuel : Nat) (db : Buf) (sigList : Nat) : Nat → Nat → Buf → Except Stop Buf
  | 0, _, b => return b
  | n + 1, sigItem, b => do
    let b ← newLoop db sigList sigItem fuel b.base b b.size
    let size ← db.load32 (sigList + 24)
    dbItemLoop fuel db sigList n (sigItem + size) b

/-- The loop over the lists of the database. -/
def dbLoop (fuel : Nat) (db : Buf) : Nat → Nat → Nat → Buf → Except Stop Buf
  | 0, _, _, _ => throw .outOfFuel
  | n + 1, sigList, left, b =>
    if left = 0 then return b
    else do
      let listSize ← db.load32 (sigList + 16)
      if left < listSize then return b
      else
        let count ← signatureCount db sigList
        let item ← firstItem db sigList
        let b ← dbItemLoop fuel db sigList count item b
        dbLoop fuel db n (sigList + listSize) (uintnSub left listSize) b

inductive Outcome where
  | success | alreadyStarted
  deriving DecidableEq

/-- `Data` is not `SigDb`, and `append` is the attribute `EFI_VARIABLE_APPEND_WRITE`. -/
def findInSignatureDb (fuel : Nat) (append : Bool) (sigDb : Option Buf) (b : Buf) :
    Except Stop (Outcome × Buf) :=
  match sigDb with
  | none => return (.success, b)
  | some db =>
    if db.size ≠ 0 ∧ append ∧ validateSignatureList b.mem b.base b.size = .success then do
      let b ← dbLoop fuel db fuel db.base db.size b
      return (if b.size = 0 then .alreadyStarted else .success, b)
    else return (.success, b)

/-! ## Lists that stand in a buffer -/

/-- These bytes stand at `p`, inside of the buffer. -/
structure Standing (b : Buf) (p : Nat) (bs : Bytes) : Prop where
  low : b.base ≤ p
  high : p + bs.length ≤ b.base + b.size
  holds : Holds b.mem p bs

/-- A list as the loops take it: its header, as many signatures as `SignatureSize` gives, and
what is left over behind them. The size need not be one of the type. -/
structure RawList where
  type : Bytes
  signatureSize : Nat
  signatures : List Bytes
  slack : Bytes
  type_length : type.length = sizeofGuid
  sized : ∀ s ∈ signatures, s.length = signatureSize
  short : signatureSize = 0 ∧ signatures = [] ∨ slack.length < signatureSize
  fits : signatureSize < 2 ^ 32
  total : sizeofSignatureList + (signatureSize * signatures.length + slack.length) < 2 ^ 32

namespace RawList

def bodySize (l : RawList) : Nat := l.signatureSize * l.signatures.length + l.slack.length

def listSize (l : RawList) : Nat := sizeofSignatureList + l.bodySize

/-- The header of a list, in front of its signatures. -/
def head (l : RawList) : Bytes :=
  l.type ++ leBytes 4 l.listSize ++ leBytes 4 0 ++ leBytes 4 l.signatureSize

def bytes (l : RawList) : Bytes := l.head ++ (l.signatures.flatten ++ l.slack)

/-- One signature, which can be compared. -/
def Single (l : RawList) : Prop := sizeofGuid ≤ l.signatureSize ∧ l.signatures.length = 1

instance (l : RawList) : Decidable l.Single := inferInstanceAs (Decidable (_ ∧ _))

theorem head_length (l : RawList) : l.head.length = sizeofSignatureList := by
  simp only [head, List.length_append, leBytes_length, l.type_length]
  rfl

end RawList

theorem flatten_length {size : Nat} : ∀ {signatures : List Bytes}, (∀ s ∈ signatures, s.length = size) →
    signatures.flatten.length = size * signatures.length
  | [], _ => rfl
  | s :: rest, h => by
    rw [List.flatten_cons, List.length_append, h s List.mem_cons_self,
      flatten_length fun s hs => h s (List.mem_cons_of_mem _ hs), List.length_cons, Nat.mul_succ, Nat.add_comm]

theorem RawList.bytes_length (l : RawList) : l.bytes.length = l.listSize := by
  unfold bytes listSize bodySize
  rw [List.length_append, List.length_append, l.head_length, flatten_length l.sized]

section

variable {b : Buf} {p : Nat} {xs ys : Bytes} {l : RawList}

theorem uintnSub_of_le {x y : Nat} (h : y ≤ x) (hx : x < 2 ^ 64) : uintnSub x y = x - y := by
  unfold uintnSub
  rw [show x + 2 ^ 64 - y = x - y + 2 ^ 64 by omega, Nat.add_mod_right, Nat.mod_eq_of_lt (by omega)]

theorem ok_bind {α β : Type} (a : α) (f : α → Except Stop β) : (Except.ok a >>= f) = f a := rfl

theorem Standing.left (h : Standing b p (xs ++ ys)) : Standing b p xs := by
  have hhigh := h.high
  rw [List.length_append] at hhigh
  exact ⟨h.low, by omega, (holds_append.mp h.holds).1⟩

theorem Standing.right (h : Standing b p (xs ++ ys)) : Standing b (p + xs.length) ys := by
  have hlow := h.low
  have hhigh := h.high
  rw [List.length_append] at hhigh
  exact ⟨by omega, by omega, (holds_append.mp h.holds).2⟩

theorem Standing.load (h : Standing b p xs) {n : Nat} (hn : n = xs.length) : b.load p n = .ok xs := by
  subst hn
  unfold Buf.load
  rw [if_pos ⟨h.low, h.high⟩, holds_iff_peek.mp h.holds]

theorem load32_eq (h1 : b.base ≤ p) (h2 : p + 4 ≤ b.base + b.size) : b.load32 p = .ok (rd b.mem 4 p) :=
  if_pos ⟨h1, h2⟩

/-- What stands behind the header. -/
theorem bodySize_eq (l : RawList) : uintnSub (uintnSub l.listSize sizeofSignatureList) 0 = l.bodySize := by
  have htotal := l.total
  unfold RawList.listSize RawList.bodySize
  rw [uintnSub_of_le (Nat.le_add_right _ _) (by omega), Nat.add_sub_cancel_left,
    uintnSub_of_le (Nat.zero_le _) (by omega), Nat.sub_zero]

/-- The fields of a header are read. -/
theorem head_loads (h : Standing b p l.head) :
    b.load32 (p + 16) = .ok l.listSize ∧ b.load32 (p + 20) = .ok 0 ∧
      b.load32 (p + 24) = .ok l.signatureSize ∧ b.load p sizeofGuid = .ok l.type := by
  have hlow := h.low
  have hhigh := h.high
  have hholds := h.holds
  rw [l.head_length] at hhigh
  unfold sizeofSignatureList at hhigh
  unfold RawList.head at hholds
  simp only [holds_append, List.length_append, leBytes_length, l.type_length] at hholds
  obtain ⟨⟨⟨htype, hlist⟩, hheader⟩, hsize⟩ := hholds
  refine ⟨(load32_eq (by omega) (by omega)).trans (congrArg _ (hlist.rd_eq_of_lt l.total)),
    (load32_eq (by omega) (by omega)).trans (congrArg _ (hheader.rd_eq_of_lt (by decide))),
    (load32_eq (by omega) (by omega)).trans (congrArg _ (hsize.rd_eq_of_lt l.fits)), ?_⟩
  unfold Buf.load
  rw [if_pos ⟨hlow, by unfold sizeofGuid; omega⟩]
  exact congrArg _ (htype.peek_eq l.type_length.symm)

/-- The fields of a list are read. -/
theorem list_loads (h : Standing b p l.bytes) :
    b.load32 (p + 16) = .ok l.listSize ∧ b.load32 (p + 20) = .ok 0 ∧
      b.load32 (p + 24) = .ok l.signatureSize ∧ b.load p sizeofGuid = .ok l.type :=
  head_loads h.left

theorem firstItem_eq (h : Standing b p l.bytes) : firstItem b p = .ok (p + sizeofSignatureList) := by
  unfold firstItem
  rw [(list_loads h).2.1]
  rfl

/-- The division is by `SignatureSize`, whatever it is. -/
theorem signatureCount_eq (h : Standing b p l.bytes) : signatureCount b p =
    if l.signatureSize = 0 then .error .divideByZero else .ok l.signatures.length := by
  obtain ⟨hlist, hheader, hsize, -⟩ := list_loads h
  have htotal := l.total
  unfold signatureCount
  rw [hlist, hheader, hsize]
  simp only [ok_bind]
  by_cases hzero : l.signatureSize = 0
  · rw [if_pos hzero, if_pos hzero]
    rfl
  · have hslack : l.slack.length < l.signatureSize := l.short.resolve_left fun h => hzero h.1
    have hk : l.signatures.length ≤ l.signatureSize * l.signatures.length :=
      Nat.le_mul_of_pos_left _ (Nat.pos_of_ne_zero hzero)
    rw [if_neg hzero, if_neg hzero, bodySize_eq]
    unfold RawList.bodySize
    rw [Nat.mul_add_div (Nat.pos_of_ne_zero hzero), Nat.div_eq_of_lt hslack, Nat.add_zero,
      Nat.mod_eq_of_lt (by omega)]
    rfl

/-- The data of a signature is read. -/
theorem item_load (h : Standing b p l.bytes) {done todo : List Bytes} {s : Bytes}
    (hsigs : l.signatures = done ++ s :: todo) (hsize : sizeofGuid ≤ l.signatureSize) :
    b.load (p + sizeofSignatureList + l.signatureSize * done.length + sizeofGuid)
      (uintnSub l.signatureSize sizeofGuid) = .ok (s.drop sizeofGuid) := by
  have hs := l.sized s (by rw [hsigs]; simp)
  have hfits := l.fits
  have hdone : done.flatten.length = l.signatureSize * done.length :=
    flatten_length fun s hs => l.sized s (by rw [hsigs]; exact List.mem_append_left _ hs)
  have hbytes : l.bytes = (l.head ++ (done.flatten ++ s.take sizeofGuid))
      ++ (s.drop sizeofGuid ++ (todo.flatten ++ l.slack)) := by
    unfold RawList.bytes
    rw [hsigs, List.flatten_append, List.flatten_cons]
    nth_rewrite 1 [← List.take_append_drop sizeofGuid s]
    simp only [List.append_assoc]
  have htake : (s.take sizeofGuid).length = sizeofGuid := by
    rw [List.length_take]
    omega
  rw [hbytes] at h
  have hdata := h.right.left
  rw [List.length_append, List.length_append, l.head_length, hdone, htake] at hdata
  have hwidth : uintnSub l.signatureSize sizeofGuid = (s.drop sizeofGuid).length := by
    rw [uintnSub_of_le hsize (by omega), List.length_drop, hs]
  have := hdata.load hwidth
  rwa [← Nat.add_assoc, ← Nat.add_assoc] at this

/-- The size of the data would be negative: no buffer has as many bytes. -/
theorem load_small (hfits : b.base + b.size < 2 ^ 64) {size : Nat} (hsize : size < sizeofGuid) (item : Nat) :
    b.load (item + sizeofGuid) (uintnSub size sizeofGuid) = .error .outside := by
  have hwrap : uintnSub size sizeofGuid = size + 2 ^ 64 - sizeofGuid := by
    unfold uintnSub
    exact Nat.mod_eq_of_lt (by omega)
  unfold Buf.load
  rw [hwrap, if_neg (by unfold sizeofGuid at *; omega)]

end

/-! ## Taking signatures out -/

/-- These bytes stand at `p` and are the rest of the buffer, which lies in the address space. -/
structure Ends (b : Buf) (p : Nat) (bs : Bytes) : Prop extends Standing b p bs where
  last : p + bs.length = b.base + b.size
  fits : b.base + b.size < 2 ^ 64

/-- The same buffer in front of `p`. -/
structure SameBelow (b b' : Buf) (p : Nat) : Prop where
  base : b'.base = b.base
  mem : ∀ a, a < p → b'.mem a = b.mem a

/-- The list with these of its signatures. -/
def withSignatures (l : RawList) (signatures : List Bytes) (h : signatures.Sublist l.signatures) : RawList :=
  { l with
    signatures := signatures
    sized := fun s hs => l.sized s (h.subset hs)
    short := l.short.elim (fun hz => Or.inl ⟨hz.1, List.sublist_nil.mp (hz.2 ▸ h)⟩) Or.inr
    total := lt_of_le_of_lt
      (Nat.add_le_add_left (Nat.add_le_add_right (Nat.mul_le_mul_left _ h.length_le) _) _) l.total }

section

variable {b : Buf} {p : Nat} {xs ys rest : Bytes} {l l' : RawList}

theorem SameBelow.refl (b : Buf) (p : Nat) : SameBelow b b p := ⟨rfl, fun _ _ => rfl⟩

theorem SameBelow.trans {b' b'' : Buf} {q : Nat} (h : SameBelow b b' p) (h' : SameBelow b' b'' q)
    (hq : p ≤ q) : SameBelow b b'' p :=
  ⟨h'.base.trans h.base, fun a ha => (h'.mem a (by omega)).trans (h.mem a ha)⟩

theorem Ends.right (h : Ends b p (xs ++ ys)) : Ends b (p + xs.length) ys := by
  have hlast := h.last
  rw [List.length_append] at hlast
  exact ⟨h.toStanding.right, by omega, h.fits⟩

/-- What has been moved down to `q` is the rest of the smaller buffer. -/
theorem Ends.moved (h : Ends b p (xs ++ ys)) {size : Nat} (hsize : b.base + size = p + ys.length) :
    Ends { b with mem := poke b.mem p ys, size := size } p ys := by
  have hlow := h.low
  have hlast := h.last
  have hfits := h.fits
  rw [List.length_append] at hlast
  exact ⟨⟨hlow, hsize.ge, holds_poke _ _ _⟩, hsize.symm, by simp only; omega⟩

theorem poke_sameBelow (b : Buf) (size : Nat) (p : Nat) (bs : Bytes) :
    SameBelow b { b with mem := poke b.mem p bs, size := size } p :=
  ⟨rfl, fun _ ha => poke_of_out (Or.inl ha)⟩

/-- A list is discarded. -/
theorem discardList_eq (h : Ends b p (l.bytes ++ rest)) :
    ∃ b', discardList b p (l.bytes ++ rest).length = .ok (b', rest.length) ∧ Ends b' p rest ∧
      SameBelow b b' p := by
  have hlast := h.last
  have hfits := h.fits
  have hlow := h.low
  have hlist := (list_loads h.toStanding.left).1
  have hrest := h.toStanding.right.load rfl
  have hlen := l.bytes_length
  have hall : (l.bytes ++ rest).length = l.listSize + rest.length := by rw [List.length_append, hlen]
  refine ⟨{ b with mem := poke b.mem p rest, size := uintnSub b.size l.listSize }, ?_, h.moved ?_,
    poke_sameBelow _ _ _ _⟩
  · unfold discardList
    rw [hlist]
    simp only [ok_bind]
    rw [uintnSub_of_le (by omega) (by omega), hall, Nat.add_sub_cancel_left, ← hlen, hrest]
    rfl
  · rw [uintnSub_of_le (by omega) (by omega)]
    omega

/-- Nothing stands behind the rest. -/
theorem discardList_error (h : Ends b p (l.bytes ++ rest)) {left : Nat}
    (hleft : (l.bytes ++ rest).length < left) (hfits : left < 2 ^ 64) :
    discardList b p left = .error .outside := by
  have hlast := h.last
  have hlow := h.low
  have hlist := (list_loads h.toStanding.left).1
  have hlen := l.bytes_length
  rw [List.length_append, hlen] at hlast hleft
  unfold discardList
  rw [hlist]
  simp only [ok_bind]
  rw [uintnSub_of_le (by omega) hfits]
  unfold Buf.load
  rw [if_neg (by omega)]
  rfl

/-- A header whose size field is written. -/
theorem head_resized (hsize : l'.signatureSize = l.signatureSize) (htype : l'.type = l.type) {m : Mem}
    (h : Holds m p (l.head ++ xs)) :
    Holds (poke m (p + 16) (leBytes 4 l'.listSize)) p (l'.head ++ xs) := by
  have hform : ∀ l : RawList, l.head ++ xs = l.type
      ++ (leBytes 4 l.listSize ++ ((leBytes 4 0 ++ leBytes 4 l.signatureSize) ++ xs)) := by
    intro l
    simp [RawList.head]
  rw [hform] at h ⊢
  rw [holds_append, holds_append, l.type_length, leBytes_length] at h
  rw [holds_append, holds_append, l'.type_length, leBytes_length, htype, hsize]
  obtain ⟨h1, -, h3⟩ := h
  refine ⟨h1.poke_of_disjoint (Or.inl ?_), holds_poke _ _ _, h3.poke_of_disjoint (Or.inr ?_)⟩
  · rw [l.type_length]
    rfl
  · rw [leBytes_length]
    rfl

/-- A signature is discarded. -/
theorem discardItem_eq (h : Ends b p (l.bytes ++ rest)) {done todo : List Bytes} {s : Bytes}
    (hsigs : l.signatures = done ++ s :: todo) (htype : l'.type = l.type)
    (hsize : l'.signatureSize = l.signatureSize) (hslack : l'.slack = l.slack)
    (hsigs' : l'.signatures = done ++ todo) :
    ∃ b', discardItem b p (p + sizeofSignatureList + l.signatureSize * done.length) = .ok b' ∧
      Ends b' p (l'.bytes ++ rest) ∧ SameBelow b b' p := by
  have hs := l.sized s (by rw [hsigs]; simp)
  have hdone : done.flatten.length = l.signatureSize * done.length :=
    flatten_length fun s hs => l.sized s (by rw [hsigs]; exact List.mem_append_left _ hs)
  -- the buffer: the header, what stays in front, the signature, and what follows
  set front := l.head ++ done.flatten with hfront
  set follow := todo.flatten ++ l.slack ++ rest with hfollow
  have hbytes : l.bytes ++ rest = front ++ (s ++ follow) := by
    unfold RawList.bytes
    rw [hsigs, List.flatten_append, List.flatten_cons, hfront, hfollow]
    simp only [List.append_assoc]
  have hbytes' : l'.bytes ++ rest = l'.head ++ (done.flatten ++ follow) := by
    unfold RawList.bytes
    rw [hsigs', hslack, List.flatten_append, hfollow]
    simp only [List.append_assoc]
  have hlen : front.length = sizeofSignatureList + l.signatureSize * done.length := by
    rw [hfront, List.length_append, l.head_length, hdone]
  have hitem : p + sizeofSignatureList + l.signatureSize * done.length = p + front.length := by omega
  have hlist : l.listSize = l'.listSize + l.signatureSize := by
    unfold RawList.listSize RawList.bodySize
    rw [hsigs, hsigs', hsize, hslack]
    simp only [List.length_append, List.length_cons, Nat.mul_add, Nat.mul_one]
    omega
  rw [hbytes] at h
  rw [hbytes', hitem]
  have hlow := h.low
  have hlast := h.last
  have hfits := h.fits
  simp only [List.length_append, hs] at hlast
  have hload : b.load (p + front.length + l.signatureSize)
      (uintnSub (b.base + b.size) (p + front.length + l.signatureSize)) = .ok follow := by
    rw [uintnSub_of_le (by omega) hfits]
    have := h.toStanding.right.right.load (n := follow.length) rfl
    rw [hs] at this
    rwa [show b.base + b.size - (p + front.length + l.signatureSize) = follow.length by omega]
  -- after the copy the header and what stays in front are still there
  have hcopied : Holds (poke b.mem (p + front.length) follow) p (front ++ follow) := by
    rw [holds_append]
    exact ⟨h.toStanding.left.holds.poke_of_disjoint (Or.inl le_rfl), holds_poke _ _ _⟩
  have hloads : ∀ h0 : Standing b p front, Standing { b with mem := poke b.mem (p + front.length) follow } p
      l.head := by
    intro h0
    have hhead : Holds (poke b.mem (p + front.length) follow) p l.head := by
      rw [hfront, List.append_assoc, holds_append] at hcopied
      exact hcopied.1
    exact ⟨h0.low, le_trans (Nat.add_le_add_left (by rw [hfront, List.length_append]; omega) _) h0.high, hhead⟩
  obtain ⟨hlistLoad, -, hsizeLoad, -⟩ := head_loads (hloads h.toStanding.left)
  refine ⟨{ b with
      mem := poke (poke b.mem (p + front.length) follow) (p + 16) (leBytes 4 l'.listSize)
      size := b.size - l.signatureSize }, ?_, ?_, ?_⟩
  · unfold discardItem
    rw [(list_loads (hbytes ▸ h.toStanding).left).2.2.1]
    simp only [ok_bind]
    rw [hload]
    simp only [ok_bind]
    rw [hlistLoad, hsizeLoad]
    simp only [ok_bind]
    have hfield : leBytes 4 (l.listSize + 2 ^ 32 - l.signatureSize) = leBytes 4 l'.listSize := by
      rw [← leBytes_mod, show l.listSize + 2 ^ 32 - l.signatureSize = l'.listSize + 256 ^ 4 by omega,
        Nat.add_mod_right, leBytes_mod]
    rw [hfield, uintnSub_of_le (by omega) (by omega)]
    rfl
  · have hfinal : Holds (poke (poke b.mem (p + front.length) follow) (p + 16) (leBytes 4 l'.listSize)) p
        (l'.head ++ (done.flatten ++ follow)) := by
      rw [hfront, List.append_assoc] at hcopied
      exact head_resized hsize htype hcopied
    have htotal : p + (l'.head ++ (done.flatten ++ follow)).length
        = b.base + (b.size - l.signatureSize) := by
      simp only [List.length_append, l'.head_length, hdone]
      omega
    exact ⟨⟨hlow, htotal.le, hfinal⟩, htotal, by simp only; omega⟩
  · refine ⟨rfl, fun a ha => ?_⟩
    simp only
    rw [poke_of_out (Or.inl (by omega)), poke_of_out (Or.inl (by omega))]

end

/-! ## One list of the payload -/

/-- The signature of the database that is looked for. -/
structure Compared (db : Buf) (sigList sigItem : Nat) (type item : Bytes) (size : Nat) : Prop where
  typeLoad : db.load sigList sizeofGuid = .ok type
  sizeLoad : db.load32 (sigList + 24) = .ok size
  dataLoad : sizeofGuid ≤ size → db.load (sigItem + sizeofGuid) (uintnSub size sizeofGuid)
    = .ok (item.drop sizeofGuid)
  length : item.length = size
  fits : db.base + db.size < 2 ^ 64

/-- A list that is not passed over: the division by its `SignatureSize` fails, or it has a
signature that is looked for, in a list of the type and size. -/
def Hit (type item : Bytes) (l : RawList) : Prop :=
  l.signatureSize = 0 ∨ l.type = type ∧ l.signatureSize = item.length
    ∧ ∃ s ∈ l.signatures, s.drop sizeofGuid = item.drop sizeofGuid

instance (type item : Bytes) (l : RawList) : Decidable (Hit type item l) :=
  inferInstanceAs (Decidable (_ ∨ _ ∧ _ ∧ _))

section

variable {db b : Buf} {sigList sigItem p left : Nat} {type item rest : Bytes} {l : RawList}

theorem isEmptyList_eq (h : Standing b p l.bytes) : isEmptyList b p = .ok (l.bodySize = 0 : Bool) := by
  obtain ⟨hlist, hheader, -, -⟩ := list_loads h
  unfold isEmptyList
  rw [hlist, hheader]
  simp only [ok_bind]
  rw [bodySize_eq]
  rfl

/-- The loop over the signatures of a list with several of them, from the one behind `done`
on: the list keeps those that are not the one looked for. -/
theorem itemLoop_several (hc : Compared db sigList sigItem type item size) (hsize16 : sizeofGuid ≤ size)
    {count : Nat} (hcount : count ≠ 1) (left : Nat) :
    ∀ (todo done : List Bytes) {l : RawList} {b : Buf},
      l.signatureSize = size → l.signatures = done ++ todo → Ends b p (l.bytes ++ rest) →
      ∃ (b' : Buf) (l' : RawList), itemLoop db sigList sigItem p count todo.length
          (p + sizeofSignatureList + size * done.length) b left = .ok (b', left, false) ∧
        l'.type = l.type ∧ l'.signatureSize = size ∧ l'.slack = l.slack ∧
        l'.signatures = done ++ todo.filter (·.drop sizeofGuid ≠ item.drop sizeofGuid) ∧
        Ends b' p (l'.bytes ++ rest) ∧ SameBelow b b' p
  | [], done, l, b, hsize, hsigs, h => ⟨b, l, rfl, rfl, hsize, rfl, by simpa using hsigs, h, SameBelow.refl b p⟩
  | s :: todo, done, l, b, hsize, hsigs, h => by
    have hnew := item_load h.toStanding.left hsigs (hsize ▸ hsize16)
    rw [hsize] at hnew
    rw [List.length_cons, itemLoop, hc.sizeLoad]
    simp only [ok_bind]
    rw [hc.dataLoad hsize16]
    simp only [ok_bind]
    rw [hnew]
    simp only [ok_bind]
    by_cases hmatch : item.drop sizeofGuid = s.drop sizeofGuid
    · -- it is taken out, and the next one stands where it stood
      rw [if_neg (not_not.mpr hmatch), if_neg hcount]
      have hsub : (done ++ todo).Sublist l.signatures := by
        rw [hsigs]
        exact (List.sublist_cons_self s todo).append_left done
      obtain ⟨b1, hdiscard, hends, hbelow⟩ :=
        @discardItem_eq _ _ _ _ (withSignatures l _ hsub) h _ _ _ hsigs rfl rfl rfl rfl
      rw [hsize] at hdiscard
      rw [hdiscard]
      simp only [ok_bind]
      rw [isEmptyList_eq hends.toStanding.left]
      simp only [ok_bind]
      have hfilter : (s :: todo).filter (·.drop sizeofGuid ≠ item.drop sizeofGuid)
          = todo.filter (·.drop sizeofGuid ≠ item.drop sizeofGuid) := by
        rw [List.filter_cons_of_neg]
        simpa using hmatch.symm
      by_cases hempty : (withSignatures l _ hsub).bodySize = 0
      · have hnil : done ++ todo = [] := by
          have hzero := (Nat.add_eq_zero_iff.mp hempty).1
          have hpos : (withSignatures l _ hsub).signatureSize ≠ 0 := by
            change l.signatureSize ≠ 0
            unfold sizeofGuid at hsize16
            omega
          exact List.length_eq_zero_iff.mp ((Nat.mul_eq_zero.mp hzero).resolve_left hpos)
        obtain ⟨rfl, rfl⟩ := List.append_eq_nil_iff.mp hnil
        refine ⟨b1, withSignatures l _ hsub, ?_, rfl, hsize, rfl, ?_, hends, hbelow⟩
        · rw [if_pos (by simpa using hempty)]
          rfl
        · rw [hfilter]
          rfl
      · rw [if_neg (by simpa using hempty)]
        obtain ⟨b2, l2, hloop, htype2, hsize2, hslack2, hsigs2, hends2, hbelow2⟩ :=
          itemLoop_several hc hsize16 hcount left todo done
            (show (withSignatures l _ hsub).signatureSize = size from hsize) rfl hends
        rw [hfilter]
        exact ⟨b2, l2, hloop, htype2, hsize2, hslack2, hsigs2, hends2, hbelow.trans hbelow2 le_rfl⟩
    · rw [if_pos hmatch, (list_loads h.toStanding.left).2.2.1]
      simp only [ok_bind]
      obtain ⟨b2, l2, hloop, htype2, hsize2, hslack2, hsigs2, hends2, hbelow2⟩ :=
        itemLoop_several hc hsize16 hcount left todo (done ++ [s]) hsize (by rw [hsigs]; simp) h
      refine ⟨b2, l2, ?_, htype2, hsize2, hslack2, ?_, hends2, hbelow2⟩
      · rw [← hloop, hsize, List.length_append, List.length_singleton, Nat.mul_add, Nat.mul_one, Nat.add_assoc,
          Nat.add_assoc]
      · rw [hsigs2, List.filter_cons_of_pos (by simpa using fun h => hmatch h.symm)]
        simp

/-- Lists with the same fields and signatures are the same bytes. -/
theorem list_bytes_congr {l' : RawList} (htype : l'.type = l.type) (hsize : l'.signatureSize = l.signatureSize)
    (hslack : l'.slack = l.slack) (hsigs : l'.signatures = l.signatures) : l'.bytes = l.bytes := by
  unfold RawList.bytes RawList.head RawList.listSize RawList.bodySize
  rw [htype, hsize, hslack, hsigs]

section

variable (hc : Compared db sigList sigItem type item size)
include hc

theorem listStep_eq (h : Standing b p l.bytes) :
    listStep db sigList sigItem p b left = if l.signatureSize = 0 then .error .divideByZero
      else if type = l.type ∧ size = l.signatureSize then
        itemLoop db sigList sigItem p l.signatures.length l.signatures.length (p + sizeofSignatureList) b left
      else .ok (b, left, false) := by
  obtain ⟨-, -, hsize, htype⟩ := list_loads h
  unfold listStep
  rw [firstItem_eq h, signatureCount_eq h, hc.typeLoad, htype, hc.sizeLoad, hsize]
  by_cases hzero : l.signatureSize = 0
  · rw [if_pos hzero, if_pos hzero]
    rfl
  · rw [if_neg hzero, if_neg hzero]
    rfl

/-- The single signature of a list. -/
theorem itemLoop_single (hsize : l.signatureSize = size)
    (hsize16 : sizeofGuid ≤ size) {s : Bytes} (hsigs : l.signatures = [s]) (h : Standing b p l.bytes) :
    itemLoop db sigList sigItem p 1 1 (p + sizeofSignatureList) b left =
      if s.drop sizeofGuid = item.drop sizeofGuid then
        (discardList b p left >>= fun r => .ok (r.1, r.2, true))
      else .ok (b, left, false) := by
  have hnew := item_load h (show l.signatures = [] ++ s :: [] from hsigs) (hsize ▸ hsize16)
  rw [hsize, List.length_nil, Nat.mul_zero, Nat.add_zero] at hnew
  rw [itemLoop, hc.sizeLoad]
  simp only [ok_bind]
  rw [hc.dataLoad hsize16]
  simp only [ok_bind]
  rw [hnew]
  simp only [ok_bind]
  by_cases hmatch : s.drop sizeofGuid = item.drop sizeofGuid
  · rw [if_neg (not_not.mpr hmatch.symm), if_pos trivial, if_pos hmatch]
    rfl
  · rw [if_pos (fun h => hmatch h.symm), if_neg hmatch, (list_loads h).2.2.1]
    rfl

/-- Signatures that are smaller than their owner are not compared. -/
theorem itemLoop_small (hsize : size < sizeofGuid)
    (count n pos : Nat) : itemLoop db sigList sigItem p count (n + 1) pos b left = .error .outside := by
  rw [itemLoop, hc.sizeLoad]
  simp only [ok_bind]
  rw [load_small hc.fits hsize]
  rfl

/-- A list without such a signature stays. -/
theorem listStep_miss (left : Nat)
    (h : Ends b p (l.bytes ++ rest)) (hmiss : ¬ Hit type item l) :
    ∃ b', listStep db sigList sigItem p b left = .ok (b', left, false) ∧ Ends b' p (l.bytes ++ rest) ∧
      SameBelow b b' p := by
  obtain ⟨hzero, hnone⟩ := not_or.mp hmiss
  rw [listStep_eq hc h.toStanding.left, if_neg hzero]
  by_cases hsame : type = l.type ∧ size = l.signatureSize
  · rw [if_pos hsame]
    have hnone : ∀ s ∈ l.signatures, s.drop sizeofGuid ≠ item.drop sizeofGuid := fun s hs heq =>
      hnone ⟨hsame.1.symm, hsame.2.symm.trans hc.length.symm, s, hs, heq⟩
    by_cases hsize16 : sizeofGuid ≤ size
    · by_cases hcount : l.signatures.length = 1
      · obtain ⟨s, hs⟩ := List.length_eq_one_iff.mp hcount
        rw [hcount, itemLoop_single hc hsame.2.symm hsize16 hs h.toStanding.left, if_neg (hnone s (by rw [hs]; simp))]
        exact ⟨b, rfl, h, SameBelow.refl b p⟩
      · obtain ⟨b', l', hloop, htype', hsize', hslack', hsigs', hends, hbelow⟩ :=
          itemLoop_several hc hsize16 hcount left l.signatures [] hsame.2.symm rfl h
        rw [List.length_nil, Nat.mul_zero, Nat.add_zero] at hloop
        have hkept : l'.signatures = l.signatures := by
          rw [hsigs', List.nil_append, List.filter_eq_self.mpr]
          intro s hs
          simpa using hnone s hs
        rw [list_bytes_congr htype' (hsize'.trans hsame.2) hslack' hkept] at hends
        exact ⟨b', hloop, hends, hbelow⟩
    · -- no data, so that any signature would be the one looked for
      have hempty : l.signatures = [] := by
        refine List.eq_nil_iff_forall_not_mem.mpr fun s hs => hnone s hs ?_
        have hlen := l.sized s hs
        have hlen' := hc.length
        rw [List.drop_eq_nil_of_le (by omega), List.drop_eq_nil_of_le (by omega)]
      rw [hempty]
      exact ⟨b, rfl, h, SameBelow.refl b p⟩
  · rw [if_neg hsame]
    exact ⟨b, rfl, h, SameBelow.refl b p⟩

/-- A list whose only signature is looked for goes, if `SigNewSize` is what is left. -/
theorem listStep_single
    (h : Ends b p (l.bytes ++ rest)) (hhit : Hit type item l) (hone : l.Single) :
    (∃ b', listStep db sigList sigItem p b (l.bytes ++ rest).length = .ok (b', rest.length, true) ∧
      Ends b' p rest ∧ SameBelow b b' p) ∧
    (∀ left, (l.bytes ++ rest).length < left → left < 2 ^ 64 →
      listStep db sigList sigItem p b left = .error .outside) := by
  obtain ⟨hsize16, hcount⟩ := hone
  have hzero : l.signatureSize ≠ 0 := by
    unfold sizeofGuid at hsize16
    omega
  obtain ⟨htype, hsize, s, hs, hdata⟩ := hhit.resolve_left hzero
  rw [hc.length] at hsize
  obtain ⟨s', hs'⟩ := List.length_eq_one_iff.mp hcount
  obtain rfl : s = s' := by simpa [hs'] using hs
  have hstep : ∀ left, listStep db sigList sigItem p b left
      = (discardList b p left >>= fun r => .ok (r.1, r.2, true)) := by
    intro left
    rw [listStep_eq hc h.toStanding.left, if_neg hzero, if_pos ⟨htype.symm, hsize.symm⟩, hcount,
      itemLoop_single hc hsize (hsize ▸ hsize16) hs' h.toStanding.left, if_pos hdata]
  constructor
  · obtain ⟨b', hdiscard, hends, hbelow⟩ := discardList_eq h
    exact ⟨b', by rw [hstep, hdiscard]; rfl, hends, hbelow⟩
  · intro left hleft hfits
    rw [hstep, discardList_error h hleft hfits]
    rfl

/-- Any other list that is hit stops the run, or is shorter afterwards, while `SigNewSize` is
what it was. -/
theorem listStep_several (left : Nat)
    (h : Ends b p (l.bytes ++ rest)) (hhit : Hit type item l) (hone : ¬ l.Single) :
    (∃ e, listStep db sigList sigItem p b left = .error e) ∨
    ∃ (b' : Buf) (l' : RawList), listStep db sigList sigItem p b left = .ok (b', left, false) ∧
      l'.listSize < l.listSize ∧ Ends b' p (l'.bytes ++ rest) ∧ SameBelow b b' p := by
  rw [listStep_eq hc h.toStanding.left]
  by_cases hzero : l.signatureSize = 0
  · rw [if_pos hzero]
    exact Or.inl ⟨_, rfl⟩
  obtain ⟨htype, hsize, s, hs, hdata⟩ := hhit.resolve_left hzero
  rw [hc.length] at hsize
  rw [if_neg hzero, if_pos ⟨htype.symm, hsize.symm⟩]
  by_cases hsize16 : sizeofGuid ≤ size
  · have hcount : l.signatures.length ≠ 1 := fun h1 => hone ⟨hsize ▸ hsize16, h1⟩
    obtain ⟨b', l', hloop, htype', hsize', hslack', hsigs', hends, hbelow⟩ :=
      itemLoop_several hc hsize16 hcount left l.signatures [] hsize rfl h
    rw [List.length_nil, Nat.mul_zero, Nat.add_zero] at hloop
    refine Or.inr ⟨b', l', hloop, ?_, hends, hbelow⟩
    have hshorter : l'.signatures.length < l.signatures.length := by
      rw [hsigs', List.nil_append]
      exact List.length_filter_lt_length_iff_exists.mpr ⟨s, hs, by simpa using hdata⟩
    have hpos : 0 < size := lt_of_lt_of_le (by decide) hsize16
    unfold RawList.listSize RawList.bodySize
    rw [hsize, hsize', hslack']
    exact Nat.add_lt_add_left (Nat.add_lt_add_right (Nat.mul_lt_mul_of_pos_left hshorter hpos) _) _
  · obtain ⟨n, hn⟩ := Nat.exists_eq_succ_of_ne_zero (List.length_pos_of_mem hs).ne'
    rw [hn, itemLoop_small hc (by omega)]
    exact Or.inl ⟨_, rfl⟩

end

end

/-! ## The lists of the payload -/

section

variable {db b : Buf} {sigList sigItem p : Nat} {type item : Bytes} {size : Nat}

theorem throw_eq {α : Type} (e : Stop) : (throw e : Except Stop α) = .error e := rfl

/-- What stands in front of what has changed is still there. -/
theorem Ends.restore {b' : Buf} {xs ys zs : Bytes} (h : Ends b p (xs ++ ys)) (h' : Ends b' (p + xs.length) zs)
    (hbelow : SameBelow b b' (p + xs.length)) : Ends b' p (xs ++ zs) := by
  have hlast := h'.last
  have hlen : (xs ++ zs).length = xs.length + zs.length := List.length_append
  refine ⟨⟨hbelow.base ▸ h.low, by omega, holds_append.mpr ⟨?_, h'.holds⟩⟩, by omega, h'.fits⟩
  exact h.toStanding.left.holds.congr fun a _ ha => hbelow.mem a ha

/-- What a pass over the payload makes of its lists, if no list is hit that has not exactly
one signature. -/
def passLists (type item : Bytes) : List RawList → Option (List RawList)
  | [] => some []
  | l :: rest =>
    if Hit type item l then if l.Single then passLists type item rest else none
    else (passLists type item rest).map (l :: ·)

def encode (lists : List RawList) : Bytes := lists.flatMap RawList.bytes

@[simp] theorem encode_nil : encode [] = [] := rfl

theorem encode_cons (l : RawList) (rest : List RawList) : encode (l :: rest) = l.bytes ++ encode rest :=
  List.flatMap_cons

theorem listSize_pos (l : RawList) : 0 < l.listSize := by
  unfold RawList.listSize sizeofSignatureList
  omega

/-- One turn of the loop, where there is a list. -/
theorem newLoop_cons (fuel : Nat) {l : RawList} {rest : Bytes} {left : Nat} (h : Standing b p l.bytes)
    (hleft : (l.bytes ++ rest).length ≤ left) :
    newLoop db sigList sigItem (fuel + 1) p b left
      = (listStep db sigList sigItem p b left >>= fun r =>
          if r.2.2 then newLoop db sigList sigItem fuel p r.1 r.2.1
          else r.1.load32 (p + 16) >>= fun listSize =>
            newLoop db sigList sigItem fuel (p + listSize) r.1 (uintnSub r.2.1 listSize)) := by
  have hpos := listSize_pos l
  rw [List.length_append, l.bytes_length] at hleft
  rw [newLoop, if_neg (by omega), (list_loads h).1]
  simp only [ok_bind]
  rw [if_neg (by omega)]

end

/-! ## A payload with a tail

Behind the lists can stand bytes that are too short for the list they begin. A run that
ends leaves such a tail behind, even if it takes the tail for a list. -/

/-- `SignatureListSize` of the list that begins there. -/
def sizeField (bs : Bytes) : Nat := leVal ((bs.drop 16).take 4)

/-- Bytes that are too short for the list that they begin, with its size among them. -/
def Cut (bs : Bytes) : Prop := 20 ≤ bs.length ∧ bs.length < sizeField bs

/-- Bytes that are no list: they end before its size, or before its end. -/
def Torn (bs : Bytes) : Prop := bs.length < 20 ∨ Cut bs

section

variable {db b b' : Buf} {sigList sigItem p left : Nat} {type item bs : Bytes} {size : Nat}

theorem bind_ok {α β : Type} {x : Except Stop α} {f : α → Except Stop β} {r : β} (h : (x >>= f) = .ok r) :
    ∃ a, x = .ok a ∧ f a = .ok r := by
  cases x with
  | error e => cases h
  | ok a => exact ⟨a, rfl, h⟩

theorem load32_ok {v : Nat} (h : b.load32 p = .ok v) :
    b.base ≤ p ∧ p + 4 ≤ b.base + b.size ∧ v = rd b.mem 4 p := by
  unfold Buf.load32 at h
  split at h
  case isTrue hin => exact ⟨hin.1, hin.2, (Except.ok.inj h).symm⟩
  case isFalse => exact absurd h (by simp)

theorem load_ok {n : Nat} {v : Bytes} (h : b.load p n = .ok v) :
    b.base ≤ p ∧ p + n ≤ b.base + b.size ∧ v = peek b.mem p n := by
  unfold Buf.load at h
  split at h
  case isTrue hin => exact ⟨hin.1, hin.2, (Except.ok.inj h).symm⟩
  case isFalse => exact absurd h (by simp)

theorem rd_sizeField {m : Mem} (h : Holds m p bs) (hlen : 20 ≤ bs.length) : rd m 4 (p + 16) = sizeField bs := by
  have hbs : bs = bs.take 16 ++ ((bs.drop 16).take 4 ++ (bs.drop 16).drop 4) := by
    rw [List.take_append_drop, List.take_append_drop]
  rw [hbs, holds_append, holds_append, List.length_take, Nat.min_eq_left (by omega)] at h
  unfold rd sizeField
  rw [h.2.1.peek_eq (by rw [List.length_take, List.length_drop]; omega)]

/-- A list that ends outside of the buffer, whose header is inside. -/
structure Overhangs (b : Buf) (p size : Nat) : Prop where
  low : b.base ≤ p
  head : p + sizeofSignatureList ≤ b.base + b.size
  fits : b.base + b.size < 2 ^ 64
  short : b.base + b.size < p + rd b.mem 4 (p + 16)
  size : rd b.mem 4 (p + 24) = size

theorem discardItem_overhang {pos : Nat} (h : Overhangs b p size) (hpos : p + sizeofSignatureList ≤ pos)
    (hin : pos + size ≤ b.base + b.size) (hrun : discardItem b p pos = .ok b') :
    Overhangs b' p size ∧ SameBelow b b' p := by
  obtain ⟨hlow, hhead, hfits, hshort, hsize⟩ := h
  unfold sizeofSignatureList at hhead hpos
  obtain ⟨size', hsize', hrun⟩ := bind_ok hrun
  obtain ⟨-, -, rfl⟩ := load32_ok hsize'
  obtain ⟨rest, hrest, hrun⟩ := bind_ok hrun
  obtain ⟨-, -, hrest⟩ := load_ok hrest
  obtain ⟨listSize, hlist, hrun⟩ := bind_ok hrun
  obtain ⟨-, -, rfl⟩ := load32_ok hlist
  obtain ⟨size', hsize', hrun⟩ := bind_ok hrun
  obtain ⟨-, -, rfl⟩ := load32_ok hsize'
  obtain rfl := Except.ok.inj hrun
  simp only
  have hkept : ∀ q, q + 4 ≤ p + 28 → rd (poke b.mem pos rest) 4 q = rd b.mem 4 q := fun q hq =>
    rd_congr fun a _ ha => poke_of_out (Or.inl (by omega))
  have hlt := rd_lt b.mem 4 (p + 16)
  rw [hkept _ (by omega), hkept _ (by omega), hsize, uintnSub_of_le (by omega) (by omega)]
  refine ⟨⟨hlow, ?_, ?_, ?_, ?_⟩, rfl, fun a ha => ?_⟩
  · simp only
    unfold sizeofSignatureList
    omega
  · simp only
    omega
  · simp only
    rw [(holds_poke _ _ _).rd_eq, show rd b.mem 4 (p + 16) + 2 ^ 32 - size
      = rd b.mem 4 (p + 16) - size + 256 ^ 4 by omega, Nat.add_mod_right, Nat.mod_eq_of_lt (by omega)]
    omega
  · simp only
    rw [rd_congr fun a _ _ => poke_of_out (Or.inr (by rw [leBytes_length]; omega)), hkept _ le_rfl, hsize]
  · simp only
    rw [poke_of_out (Or.inl (by omega)), poke_of_out (Or.inl (by omega))]

variable {r : Buf × Nat × Bool}

theorem itemLoop_overhang (hc : Compared db sigList sigItem type item size) (hsize : size < 2 ^ 32) {count : Nat} : ∀ (n : Nat) {pos : Nat} {b : Buf}, Overhangs b p size →
      p + sizeofSignatureList ≤ pos → itemLoop db sigList sigItem p count n pos b left = .ok r →
      r.2 = (left, false) ∧ Overhangs r.1 p size ∧ SameBelow b r.1 p
  | 0, pos, b, h, _, hrun => by
    obtain rfl := Except.ok.inj hrun
    exact ⟨rfl, h, SameBelow.refl b p⟩
  | n + 1, pos, b, h, hpos, hrun => by
    rw [itemLoop, hc.sizeLoad] at hrun
    simp only [ok_bind] at hrun
    obtain ⟨old, -, hrun⟩ := bind_ok hrun
    obtain ⟨new, hnew, hrun⟩ := bind_ok hrun
    obtain ⟨-, hin, -⟩ := load_ok hnew
    have hin : pos + size ≤ b.base + b.size := by
      have := h.fits
      unfold uintnSub sizeofGuid at hin
      omega
    split at hrun
    case isTrue =>
      obtain ⟨sizeNew, -, hrun⟩ := bind_ok hrun
      exact itemLoop_overhang hc hsize n h (le_trans hpos (Nat.le_add_right _ _)) hrun
    case isFalse =>
      split at hrun
      case isTrue =>
        -- what would stand behind the list is not there
        obtain ⟨r', hdiscard, -⟩ := bind_ok hrun
        obtain ⟨listSize, hlist, hdiscard⟩ := bind_ok hdiscard
        obtain ⟨rest, hrest, -⟩ := bind_ok hdiscard
        obtain ⟨-, -, rfl⟩ := load32_ok hlist
        have hshort := h.short
        have := (load_ok hrest).2.1
        omega
      case isFalse =>
        obtain ⟨b1, hdiscard, hrun⟩ := bind_ok hrun
        obtain ⟨h1, hbelow⟩ := discardItem_overhang h hpos hin hdiscard
        obtain ⟨empty, -, hrun⟩ := bind_ok hrun
        split at hrun
        case isTrue =>
          obtain rfl := Except.ok.inj hrun
          exact ⟨rfl, h1, hbelow⟩
        case isFalse =>
          obtain ⟨hr, h2, hbelow2⟩ := itemLoop_overhang hc hsize n h1 hpos hrun
          exact ⟨hr, h2, hbelow.trans hbelow2 le_rfl⟩

/-- The tail taken for a list: it stays a tail. -/
theorem listStep_overhang (hc : Compared db sigList sigItem type item size) (h : Ends b p bs) (hcut : Cut bs) (hrun : listStep db sigList sigItem p b left = .ok r) :
    r.2 = (left, false) ∧ SameBelow b r.1 p ∧ ∃ bs', Ends r.1 p bs' ∧ Cut bs' := by
  have hfield := rd_sizeField h.holds hcut.1
  have hlast := h.last
  have hfits := h.fits
  obtain ⟨first, hfirst, hrun⟩ := bind_ok hrun
  obtain ⟨count, -, hrun⟩ := bind_ok hrun
  obtain ⟨type', -, hrun⟩ := bind_ok hrun
  obtain ⟨typeNew, -, hrun⟩ := bind_ok hrun
  obtain ⟨size', hsize', hrun⟩ := bind_ok hrun
  obtain ⟨sizeNew, hsizeNew, hrun⟩ := bind_ok hrun
  obtain ⟨-, hin, hsizeNew⟩ := load32_ok hsizeNew
  rw [hc.sizeLoad] at hsize'
  obtain rfl := Except.ok.inj hsize'
  split at hrun
  case isTrue hsame =>
    obtain ⟨headerSize, -, hfirst⟩ := bind_ok hfirst
    have hover : Overhangs b p size :=
      ⟨h.low, by unfold sizeofSignatureList; omega, hfits, by have := hcut.2; omega, by rw [hsame.2, hsizeNew]⟩
    have hlt := rd_lt b.mem 4 (p + 24)
    obtain ⟨hr, hover', hbelow⟩ := itemLoop_overhang hc (by omega) count hover
      (by rw [← Except.ok.inj hfirst]; exact Nat.le_add_right _ _) hrun
    obtain ⟨hlow', hhead', hfits', hshort', -⟩ := hover'
    unfold sizeofSignatureList at hhead'
    have hlen : (peek r.1.mem p (r.1.base + r.1.size - p)).length = r.1.base + r.1.size - p := peek_length _ _ _
    have hfield' := rd_sizeField (holds_peek r.1.mem p (r.1.base + r.1.size - p)) (by omega)
    refine ⟨hr, hbelow, peek r.1.mem p (r.1.base + r.1.size - p),
      ⟨⟨hlow', by omega, holds_peek _ _ _⟩, by omega, hfits'⟩, by omega, by omega⟩
  case isFalse =>
    obtain rfl := Except.ok.inj hrun
    exact ⟨rfl, SameBelow.refl b p, bs, h, hcut⟩

/-- A pass over a payload with a tail leaves a tail. Without one it does not end once
`SigNewSize` counts bytes that are not there. -/
theorem newLoop_torn (hc : Compared db sigList sigItem type item size) (htorn : Torn bs) :
    ∀ {lists : List RawList} {fuel p left : Nat} {b : Buf}, Ends b p (encode lists ++ bs) →
      (encode lists ++ bs).length ≤ left → (bs = [] → (encode lists).length < left) → left < 2 ^ 64 →
      newLoop db sigList sigItem fuel p b left = .ok b' →
      bs ≠ [] ∧ ∃ lists' bs', Ends b' p (encode lists' ++ bs') ∧ Cut bs' ∧ SameBelow b b' p
  | _, 0, _, _, _, _, _, _, _, hrun => absurd hrun (by simp [newLoop, throw_eq])
  | [], fuel + 1, p, left, b, h, hleft, hmore, _, hrun => by
    rw [encode_nil, List.nil_append] at h hleft
    have hpos : left ≠ 0 := by
      by_cases hnil : bs = []
      · have := hmore hnil
        omega
      · have := List.length_pos_iff.mpr hnil
        omega
    rw [newLoop, if_neg hpos] at hrun
    obtain ⟨listSize, hfield, hrun⟩ := bind_ok hrun
    have hin := (load32_ok hfield).2.1
    have hend := h.last
    have hcut : Cut bs := htorn.resolve_left (by omega)
    have hne : bs ≠ [] := List.ne_nil_of_length_pos (by omega)
    split at hrun
    case isTrue =>
      obtain rfl := Except.ok.inj hrun
      exact ⟨hne, [], bs, h, hcut, SameBelow.refl b p⟩
    case isFalse =>
      obtain ⟨r, hstep, hrun⟩ := bind_ok hrun
      obtain ⟨hr, hbelow, bs', hends, hcut'⟩ := listStep_overhang hc h hcut hstep
      rw [hr, if_neg Bool.false_ne_true] at hrun
      obtain ⟨listSize', hlist, hrun⟩ := bind_ok hrun
      obtain ⟨-, -, rfl⟩ := load32_ok hlist
      rw [rd_sizeField hends.holds hcut'.1] at hrun
      -- behind this list there is nothing
      cases fuel with
      | zero => exact absurd hrun (by simp [newLoop, throw_eq])
      | succ fuel =>
        rw [newLoop] at hrun
        split at hrun
        case isTrue =>
          obtain rfl := Except.ok.inj hrun
          exact ⟨hne, [], bs', hends, hcut', hbelow⟩
        case isFalse =>
          obtain ⟨listSize', hlist, -⟩ := bind_ok hrun
          obtain ⟨-, hin, -⟩ := load32_ok hlist
          have hlast := hends.last
          have hshort := hcut'.2
          omega
  | l :: rest, fuel + 1, p, left, b, h, hleft, hmore, hfits, hrun => by
    rw [encode_cons, List.append_assoc] at h hleft
    rw [encode_cons, List.length_append] at hmore
    have hlen : (l.bytes ++ (encode rest ++ bs)).length = l.listSize + (encode rest ++ bs).length := by
      rw [List.length_append, l.bytes_length]
    rw [newLoop_cons fuel h.toStanding.left hleft] at hrun
    obtain ⟨r, hstep, hrun⟩ := bind_ok hrun
    by_cases hgone : Hit type item l ∧ l.Single
    · obtain ⟨⟨b1, hstep1, hends, hbelow⟩, herror⟩ := listStep_single hc h hgone.1 hgone.2
      obtain hlt | rfl := hleft.lt_or_eq
      · rw [herror left hlt hfits] at hstep
        exact absurd hstep (by simp)
      rw [hstep1] at hstep
      obtain rfl := Except.ok.inj hstep
      simp only [if_true] at hrun
      have hne : bs ≠ [] := by
        rintro rfl
        have := hmore rfl
        simp only [List.length_append, List.length_nil] at this
        omega
      obtain ⟨-, lists', bs', hends', hcut', hbelow'⟩ :=
        newLoop_torn hc htorn hends le_rfl (fun hnil => absurd hnil hne) (by omega) hrun
      exact ⟨hne, lists', bs', hends', hcut', hbelow.trans hbelow' le_rfl⟩
    · -- the list stays, or what is left of it
      obtain ⟨b1, l', hstep1, hshorter, hends, hbelow⟩ : ∃ (b1 : Buf) (l' : RawList),
          listStep db sigList sigItem p b left = .ok (b1, left, false) ∧ l'.listSize ≤ l.listSize ∧
            Ends b1 p (l'.bytes ++ (encode rest ++ bs)) ∧ SameBelow b b1 p := by
        by_cases hhit : Hit type item l
        · obtain ⟨e, he⟩ | ⟨b1, l', hstep1, hshorter, hends, hbelow⟩ :=
            listStep_several hc left h hhit fun hone => hgone ⟨hhit, hone⟩
          · rw [he] at hstep
            exact absurd hstep (by simp)
          · exact ⟨b1, l', hstep1, hshorter.le, hends, hbelow⟩
        · obtain ⟨b1, hstep1, hends, hbelow⟩ := listStep_miss hc left h hhit
          exact ⟨b1, l, hstep1, le_rfl, hends, hbelow⟩
      rw [hstep1] at hstep
      obtain rfl := Except.ok.inj hstep
      simp only [Bool.false_eq_true, if_false] at hrun
      rw [(list_loads hends.toStanding.left).1] at hrun
      simp only [ok_bind] at hrun
      rw [uintnSub_of_le (by omega) hfits, ← l'.bytes_length] at hrun
      have hlen' := l'.bytes_length
      obtain ⟨hne, lists', bs', hends', hcut', hbelow'⟩ := newLoop_torn hc htorn hends.right (by omega)
        (fun hnil => by have := hmore hnil; rw [l.bytes_length] at this; omega) (by omega) hrun
      refine ⟨hne, l' :: lists', bs', ?_, hcut', hbelow.trans hbelow' (Nat.le_add_right _ _)⟩
      rw [encode_cons, List.append_assoc]
      exact hends.restore hends' hbelow'


/-- Once `SigNewSize` counts bytes that are not there, the loop leaves the payload. -/
theorem newLoop_error (hc : Compared db sigList sigItem type item size) {lists : List RawList} {fuel : Nat}
    (h : Ends b p (encode lists)) (hmore : (encode lists).length < left) (hfits : left < 2 ^ 64) :
    ∃ e, newLoop db sigList sigItem fuel p b left = .error e := by
  cases hrun : newLoop db sigList sigItem fuel p b left with
  | error e => exact ⟨e, rfl⟩
  | ok b' =>
    rw [← List.append_nil (encode lists)] at h
    exact absurd rfl (newLoop_torn hc (Or.inl (by decide)) h (by rw [List.append_nil]; omega)
      (fun _ => hmore) hfits hrun).1

/-- A pass over the payload. -/
theorem newLoop_spec (hc : Compared db sigList sigItem type item size) :
    ∀ {lists : List RawList} {fuel p : Nat} {b : Buf}, Ends b p (encode lists) → lists.length < fuel →
      match passLists type item lists with
      | some lists' => ∃ b', newLoop db sigList sigItem fuel p b (encode lists).length = .ok b' ∧
          Ends b' p (encode lists') ∧ SameBelow b b' p
      | none => ∃ e, newLoop db sigList sigItem fuel p b (encode lists).length = .error e
  | [], fuel + 1, p, b, h, _ => ⟨b, rfl, h, SameBelow.refl b p⟩
  | l :: rest, fuel + 1, p, b, h, hfuel => by
    have hlen : (l.bytes ++ encode rest).length = l.listSize + (encode rest).length := by
      rw [List.length_append, l.bytes_length]
    have hfuel' : rest.length < fuel := by simpa using hfuel
    rw [encode_cons] at h ⊢
    have hlast := h.last
    have hfits := h.fits
    rw [newLoop_cons fuel h.toStanding.left le_rfl, passLists]
    by_cases hhit : Hit type item l
    · rw [if_pos hhit]
      by_cases hone : l.Single
      · obtain ⟨b', hstep, hends, hbelow⟩ := (listStep_single hc h hhit hone).1
        rw [if_pos hone, hstep]
        simp only [ok_bind, if_true]
        have ih := newLoop_spec hc hends hfuel'
        revert ih
        cases passLists type item rest with
        | none => exact fun ih => ih
        | some lists' =>
          rintro ⟨b2, hloop, hends2, hbelow2⟩
          exact ⟨b2, hloop, hends2, hbelow.trans hbelow2 le_rfl⟩
      · rw [if_neg hone]
        obtain ⟨e, he⟩ | ⟨b', l', hstep, hshorter, hends, -⟩ :=
          listStep_several hc (l.bytes ++ encode rest).length h hhit hone
        · rw [he]
          exact ⟨_, rfl⟩
        rw [hstep]
        simp only [ok_bind, Bool.false_eq_true, if_false]
        rw [(list_loads hends.toStanding.left).1]
        simp only [ok_bind]
        rw [uintnSub_of_le (by omega) (by omega), ← l'.bytes_length]
        have hlen' := l'.bytes_length
        exact newLoop_error hc hends.right (by omega) (by omega)
    · obtain ⟨b', hstep, hends, hbelow⟩ := listStep_miss hc (l.bytes ++ encode rest).length h hhit
      rw [if_neg hhit, hstep]
      simp only [ok_bind, Bool.false_eq_true, if_false]
      rw [(list_loads hends.toStanding.left).1]
      simp only [ok_bind]
      rw [uintnSub_of_le (by omega) (by omega), hlen, Nat.add_sub_cancel_left, ← l.bytes_length]
      have ih := newLoop_spec hc hends.right hfuel'
      revert ih
      cases passLists type item rest with
      | none => exact fun ih => ih
      | some lists' =>
        rintro ⟨b2, hloop, hends2, hbelow2⟩
        refine ⟨b2, hloop, ?_, hbelow.trans hbelow2 (Nat.le_add_right _ _)⟩
        rw [encode_cons]
        exact hends.restore hends2 hbelow2

end

/-! ## The signatures of the database -/

/-- The passes for these signatures, one after the other. -/
def passItems (type : Bytes) : List Bytes → List RawList → Option (List RawList)
  | [], lists => some lists
  | s :: todo, lists => (passLists type s lists).bind (passItems type todo)

/-- The passes for all the lists of the database. -/
def passAll : List RawList → List RawList → Option (List RawList)
  | [], lists => some lists
  | l :: rest, lists => (passItems l.type l.signatures lists).bind (passAll rest)

theorem passLists_sublist {type item : Bytes} : ∀ {lists lists' : List RawList},
    passLists type item lists = some lists' → lists'.Sublist lists
  | [], lists', h => by
    obtain rfl := Option.some.inj h
    exact List.Sublist.refl _
  | l :: rest, lists', h => by
    rw [passLists] at h
    split at h
    · split at h
      · exact (passLists_sublist h).cons l
      · exact absurd h (by simp)
    · obtain ⟨kept, hkept, rfl⟩ := Option.map_eq_some_iff.mp h
      exact (passLists_sublist hkept).cons_cons l

theorem passItems_sublist {type : Bytes} : ∀ {todo : List Bytes} {lists lists' : List RawList},
    passItems type todo lists = some lists' → lists'.Sublist lists
  | [], lists, lists', h => by
    obtain rfl := Option.some.inj h
    exact List.Sublist.refl _
  | s :: todo, lists, lists', h => by
    obtain ⟨kept, hkept, hrest⟩ := Option.bind_eq_some_iff.mp h
    exact (passItems_sublist hrest).trans (passLists_sublist hkept)

/-- A payload behind whose lists stands a tail. -/
def Truncated (b : Buf) : Prop :=
  ∃ (lists : List RawList) (bs : Bytes), Ends b b.base (encode lists ++ bs) ∧ bs ≠ [] ∧ Torn bs

section

variable {db : Buf}
variable {q : Nat} {tail : Bytes}

theorem compared_of_list {l : RawList} (h : Standing db q l.bytes) (hfits : db.base + db.size < 2 ^ 64)
    {done todo : List Bytes} {s : Bytes} (hsigs : l.signatures = done ++ s :: todo) :
    Compared db q (q + sizeofSignatureList + l.signatureSize * done.length) l.type s l.signatureSize := by
  obtain ⟨-, -, hsize, htype⟩ := list_loads h
  exact ⟨htype, hsize, item_load h hsigs, l.sized s (by rw [hsigs]; simp), hfits⟩

/-- The loop over the signatures of a list of the database, from the one behind `done` on. -/
theorem dbItemLoop_spec (fuel : Nat) {l : RawList} (h : Standing db q l.bytes)
    (hfits : db.base + db.size < 2 ^ 64) :
    ∀ (todo done : List Bytes) {lists : List RawList} {b : Buf},
      l.signatures = done ++ todo → lists.length < fuel → Ends b b.base (encode lists) →
      match passItems l.type todo lists with
      | some lists' => ∃ b', dbItemLoop fuel db q todo.length
            (q + sizeofSignatureList + l.signatureSize * done.length) b = .ok b' ∧ b'.base = b.base ∧
          Ends b' b'.base (encode lists')
      | none => ∃ e, dbItemLoop fuel db q todo.length
            (q + sizeofSignatureList + l.signatureSize * done.length) b = .error e
  | [], done, lists, b, _, _, hb => ⟨b, rfl, rfl, hb⟩
  | s :: todo, done, lists, b, hsigs, hfuel, hb => by
    have hpass := newLoop_spec (compared_of_list h hfits hsigs) hb hfuel
    have hsize : b.size = (encode lists).length := by
      have := hb.last
      omega
    rw [List.length_cons, dbItemLoop, passItems, hsize]
    revert hpass
    cases hlists : passLists l.type s lists with
    | none =>
      rintro ⟨e, he⟩
      simp only [Option.bind_none]
      rw [he]
      exact ⟨e, rfl⟩
    | some kept =>
      rintro ⟨b1, hloop, hends, hbelow⟩
      have hsub := passLists_sublist hlists
      simp only [Option.bind_some]
      rw [hloop]
      simp only [ok_bind]
      rw [(list_loads h).2.2.1]
      simp only [ok_bind]
      rw [← hbelow.base] at hends
      have ih := dbItemLoop_spec fuel h hfits todo (done ++ [s]) (by rw [hsigs]; simp)
        (lt_of_le_of_lt hsub.length_le hfuel) hends
      rw [List.length_append, List.length_singleton, Nat.mul_add, Nat.mul_one, ← Nat.add_assoc] at ih
      revert ih
      cases passItems l.type todo kept with
      | none => exact fun ih => ih
      | some lists' =>
        rintro ⟨b2, hloop2, hbase2, hends2⟩
        exact ⟨b2, hloop2, hbase2.trans hbelow.base, hends2⟩

/-- The passes leave a tail. -/
theorem dbItemLoop_torn (fuel : Nat) {l : RawList} (h : Standing db q l.bytes)
    (hfits : db.base + db.size < 2 ^ 64) {b' : Buf} :
    ∀ (todo done : List Bytes) {b : Buf}, l.signatures = done ++ todo → Truncated b →
      dbItemLoop fuel db q todo.length (q + sizeofSignatureList + l.signatureSize * done.length) b = .ok b' →
      Truncated b'
  | [], _, b, _, hb, hrun => by
    obtain rfl := Except.ok.inj hrun
    exact hb
  | s :: todo, done, b, hsigs, ⟨lists, bs, hends, hne, htorn⟩, hrun => by
    have hlast := hends.last
    have hfitsB := hends.fits
    obtain ⟨b1, hloop, hrun⟩ := bind_ok hrun
    obtain ⟨-, lists', bs', hends', hcut', hbelow⟩ := newLoop_torn (compared_of_list h hfits hsigs) htorn hends
      (show (encode lists ++ bs).length ≤ b.size by omega) (fun hnil => absurd hnil hne) (by omega) hloop
    rw [← hbelow.base] at hends'
    rw [(list_loads h).2.2.1] at hrun
    simp only [ok_bind] at hrun
    have hne' : bs' ≠ [] := List.ne_nil_of_length_pos (by have := hcut'.1; omega)
    refine dbItemLoop_torn fuel h hfits todo (done ++ [s]) (by rw [hsigs]; simp)
      ⟨lists', bs', hends', hne', Or.inr hcut'⟩ ?_
    rwa [List.length_append, List.length_singleton, Nat.mul_add, Nat.mul_one, ← Nat.add_assoc]

/-- One turn of the loop over the lists of the database. -/
theorem dbLoop_cons (fuel n : Nat) {l : RawList} {rest : Bytes} (h : Ends db q (l.bytes ++ rest))
    (b : Buf) : dbLoop fuel db (n + 1) q (l.bytes ++ rest).length b =
      if l.signatureSize = 0 then .error .divideByZero
      else dbItemLoop fuel db q l.signatures.length (q + sizeofSignatureList) b >>=
        dbLoop fuel db n (q + l.bytes.length) rest.length := by
  have hlen : (l.bytes ++ rest).length = l.listSize + rest.length := by rw [List.length_append, l.bytes_length]
  have hlast := h.last
  have hfits := h.fits
  have hpos := listSize_pos l
  rw [dbLoop, if_neg (by omega), (list_loads h.toStanding.left).1]
  simp only [ok_bind]
  rw [if_neg (by omega), signatureCount_eq h.toStanding.left, firstItem_eq h.toStanding.left]
  by_cases hzero : l.signatureSize = 0
  · rw [if_pos hzero, if_pos hzero]
    rfl
  · rw [if_neg hzero, if_neg hzero]
    simp only [ok_bind]
    rw [uintnSub_of_le (by omega) (by omega), hlen, Nat.add_sub_cancel_left, l.bytes_length]

/-- The loop over the lists of the database. -/
theorem dbLoop_spec (fuel : Nat) (htail : tail = [] ∨ Cut tail) :
    ∀ {dbLists lists : List RawList} {n q : Nat} {b : Buf}, (∀ d ∈ dbLists, d.signatureSize ≠ 0) →
    Ends db q (encode dbLists ++ tail) → dbLists.length < n →
    lists.length < fuel → Ends b b.base (encode lists) →
    match passAll dbLists lists with
    | some lists' => ∃ b', dbLoop fuel db n q (encode dbLists ++ tail).length b = .ok b' ∧ b'.base = b.base ∧
        Ends b' b'.base (encode lists')
    | none => ∃ e, dbLoop fuel db n q (encode dbLists ++ tail).length b = .error e
  | [], lists, n + 1, q, b, _, h, _, _, hb => by
    refine ⟨b, ?_, rfl, hb⟩
    rw [encode_nil, List.nil_append] at h ⊢
    obtain rfl | hcut := htail
    · rfl
    · have h20 := hcut.1
      have hlast := h.last
      rw [dbLoop, if_neg (by omega), load32_eq (Nat.le_add_right_of_le h.low) (by omega)]
      simp only [ok_bind]
      rw [rd_sizeField h.holds h20, if_pos hcut.2]
      rfl
  | d :: rest, lists, n + 1, q, b, hsizes, h, hn, hfuel, hb => by
    rw [encode_cons, List.append_assoc] at h ⊢
    obtain ⟨hd, hsizes⟩ := List.forall_mem_cons.mp hsizes
    have hitems := dbItemLoop_spec fuel h.toStanding.left h.fits d.signatures [] rfl hfuel hb
    rw [List.length_nil, Nat.mul_zero, Nat.add_zero] at hitems
    rw [dbLoop_cons fuel n h, if_neg hd, passAll]
    revert hitems
    cases hpass : passItems d.type d.signatures lists with
    | none =>
      rintro ⟨e, he⟩
      simp only [Option.bind_none]
      rw [he]
      exact ⟨e, rfl⟩
    | some kept =>
      rintro ⟨b1, hloop, hbase, hends⟩
      have hsub := passItems_sublist hpass
      simp only [Option.bind_some]
      rw [hloop]
      simp only [ok_bind]
      have ih := dbLoop_spec fuel htail hsizes h.right (show rest.length < n by simpa using hn)
        (lt_of_le_of_lt hsub.length_le hfuel) hends
      revert ih
      cases passAll rest kept with
      | none => exact fun ih => ih
      | some lists' =>
        rintro ⟨b2, hloop2, hbase2, hends2⟩
        exact ⟨b2, hloop2, hbase2.trans hbase, hends2⟩

/-- A run that ends has divided by no size of zero, has read no further than the database,
and has left the payload its tail. -/
theorem dbLoop_ok (fuel : Nat) (htorn : Torn tail) {b' : Buf} :
    ∀ {dbLists : List RawList} {n q : Nat} {b : Buf}, Ends db q (encode dbLists ++ tail) →
    dbLoop fuel db n q (encode dbLists ++ tail).length b = .ok b' →
    (∀ d ∈ dbLists, d.signatureSize ≠ 0) ∧ (tail = [] ∨ Cut tail) ∧ (Truncated b → Truncated b')
  | _, 0, _, _, _, hrun => absurd hrun (by simp [dbLoop, throw_eq])
  | [], n + 1, q, b, h, hrun => by
    rw [encode_nil, List.nil_append] at h hrun
    by_cases hnil : tail = []
    · subst hnil
      obtain rfl := Except.ok.inj hrun
      exact ⟨by simp, Or.inl rfl, fun hb => hb⟩
    have hlast := h.last
    have hpos := List.length_pos_iff.mpr hnil
    rw [dbLoop, if_neg (by omega)] at hrun
    obtain ⟨listSize, hlist, hrun⟩ := bind_ok hrun
    obtain ⟨-, hin, rfl⟩ := load32_ok hlist
    have hcut : Cut tail := htorn.resolve_left (by omega)
    rw [rd_sizeField h.holds hcut.1, if_pos hcut.2] at hrun
    obtain rfl := Except.ok.inj hrun
    exact ⟨by simp, Or.inr hcut, fun hb => hb⟩
  | d :: rest, n + 1, q, b, h, hrun => by
    rw [encode_cons, List.append_assoc] at h hrun
    rw [dbLoop_cons fuel n h] at hrun
    split at hrun
    case isTrue => exact absurd hrun (by simp)
    case isFalse hd =>
      obtain ⟨b1, hitems, hrun⟩ := bind_ok hrun
      obtain ⟨hsizes, htail, hleft⟩ := dbLoop_ok fuel htorn h.right hrun
      refine ⟨List.forall_mem_cons.mpr ⟨hd, hsizes⟩, htail, fun hb => hleft ?_⟩
      refine dbItemLoop_torn fuel h.toStanding.left h.fits d.signatures [] rfl hb ?_
      rwa [List.length_nil, Nat.mul_zero, Nat.add_zero]

end

end BayTrail.SecureBoot.Filter
