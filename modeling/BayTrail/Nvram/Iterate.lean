import BayTrail.Nvram.Collect
import BayTrail.Nvram.Effect

/-!
# The NVRAM store: walking the variables by name

What a garbage collection reads of its source. On a well-formed store the name
iteration visits the live headers in the order of the log, hands out their names and
GUIDs, and the reading routines then find for each of them the attributes, the data
and the authentication fields that are its value.
-/

namespace BayTrail.Nvram

open BayTrail.Lib

/-! ## Names -/

theorem asciiChars_eq {m : Mem} : ∀ {cs : List UInt16} {p n : Nat},
    Holds m p (cs.map (·.toUInt8) ++ [0]) → (∀ c ∈ cs, c.toNat < 256) → 0 ∉ cs →
    cs.length < n → asciiChars m n p = cs
  | _, _, 0, _, _, _, hn => absurd hn (Nat.not_lt_zero _)
  | [], p, n + 1, h, _, _, _ => by
    have h0 : m p = 0 := h.1
    simp [asciiChars, h0]
  | c :: cs, p, n + 1, h, hlt, hnz, hn => by
    have h0 : m p = c.toUInt8 := h.1
    have hc : c.toNat < 256 := hlt c (List.mem_cons_self ..)
    have hback : c.toUInt8.toUInt16 = c := by
      apply UInt16.toNat_inj.mp
      rw [UInt8.toNat_toUInt16, UInt16.toNat_toUInt8, Nat.mod_eq_of_lt hc]
    have hne : ¬ c.toUInt8 = 0 := by
      intro he
      rw [he] at hback
      exact hnz (by rw [← hback]; simp)
    have ih := asciiChars_eq (p := p + 1) h.2 (fun d hd => hlt d (List.mem_cons_of_mem _ hd))
      (fun h0 => hnz (List.mem_cons_of_mem _ h0)) (Nat.lt_of_succ_lt_succ hn)
    unfold asciiChars
    rw [h0, if_neg hne, hback, ih]

theorem unicodeChars_eq {m : Mem} : ∀ {cs : List UInt16} {p n : Nat},
    Holds m p (cs.flatMap (fun c => leBytes 2 c.toNat) ++ [0, 0]) → 0 ∉ cs →
    cs.length < n → unicodeChars m n p = cs
  | _, _, 0, _, _, hn => absurd hn (Nat.not_lt_zero _)
  | [], p, n + 1, h, _, _ => by
    have h0 : rd m 2 p = 0 := (show Holds m p (leBytes 2 0) from h).rd_eq
    simp [unicodeChars, h0]
  | c :: cs, p, n + 1, h, hnz, hn => by
    rw [List.flatMap_cons, List.append_assoc, holds_append] at h
    have h0 : rd m 2 p = c.toNat := h.1.rd_eq_of_lt c.toNat_lt
    have hne : ¬ c.toNat = 0 := fun he =>
      hnz (by rw [UInt16.toNat_inj.mp (show c.toNat = (0 : UInt16).toNat from he)]; simp)
    have ih := unicodeChars_eq (p := p + 2) (by simpa using h.2)
      (fun h0 => hnz (List.mem_cons_of_mem _ h0)) (Nat.lt_of_succ_lt_succ hn)
    unfold unicodeChars
    rw [h0, if_neg hne, ih, UInt16.ofNat_toNat]

section

variable {s : StoreInfo} {p next : Nat} {hd : Header}

/-- The name that is handed out is that of the header. -/
theorem nameAt_eq (h : RecAt s.mem p (.header hd next))
    (hlen : hd.name.chars.length < s.nvramSize) : nameAt s p = hd.name := by
  obtain ⟨-, -, -, -, -, -, ha, -⟩ := hd.flags_test
  have hname := holds_name h
  unfold nameAt hasFlag
  rw [flagsAt_header h, ha]
  unfold nameBytes at hname
  cases hasc : hd.ascii with
  | true =>
    rw [hasc, if_pos rfl] at hname
    have hall := hd.ascii_ok hasc
    unfold isAsciiName at hall
    rw [List.all_eq_true] at hall
    have := asciiChars_eq hname (fun c hc => of_decide_eq_true (hall c hc)) hd.name.nonzero hlen
    simp only [if_true, this]
  | false =>
    rw [hasc, if_neg (by simp)] at hname
    have := unicodeChars_eq hname hd.name.nonzero hlen
    simp only [Bool.false_eq_true, if_false, this]

end

/-! ## The source of a copy -/

section

variable {h : Nat} {s : StoreInfo} {D A T : List Rec}

/-- The invariant does not look at `pLastReturned`. -/
theorem Store.returned (S : Store h s D A T) (x : Option Nat) :
    Store h { s with pLastReturned := x } D A T :=
  ⟨S.holds, S.first, S.end_, S.sizes, S.links, S.dead, S.dead_head, S.tail, S.head, S.walkedGuids,
    S.unique, S.chains, S.ends, S.room, S.erased, S.guid256, S.spare⟩

/-- The iteration goes on with the live headers of `xs`, which stand at `p`. -/
def GoesOn (s : StoreInfo) (key : Key) (p : Nat) (xs : List Rec) : Prop :=
  nvGetNextVariableNvar s key false
    = match ((placed p xs).find? fun x => x.2.live.isSome).map Prod.fst with
      | none => (.notFound, none, { s with pLastReturned := none })
      | some q => (.success, some q, s)

variable {key : Key} {n : Nat} {m : Mem} {a : HdrAuth} {mc : UInt64}

/-- An empty name starts the iteration. -/
theorem Store.goesOn_first (S : Store h s D A T) (hkey : key.1.chars = []) :
    GoesOn s key s.pFirstVar A := by
  have hfirst : nvGetFirstValid s
      = ((placed s.pFirstVar A).find? fun x => x.2.live.isSome).map Prod.fst := by
    rw [nvGetFirstValid_eq S.logAt]
    rcases S.head with hh | hh
    · rw [if_pos hh]
    · have hnone : (placed s.pFirstVar A).find? (fun x => x.2.live.isSome) = none :=
        List.find?_eq_none.mpr fun x hx => by simp [hh x.2 (mem_of_mem_place hx)]
      rw [hnone]
      split <;> rfl
  unfold GoesOn nvGetNextVariableNvar
  rw [hfirst]
  cases (placed s.pFirstVar A).find? fun x => x.2.live.isSome <;> simp [hkey]

/-- The name of the variable returned last continues behind it. -/
theorem Store.goesOn_after (S : Store h s D A T) {p : Nat} {hd : Header}
    {A1 A2 : List Rec} (hA : A = A1 ++ .header hd n :: A2) (hp : p = s.pFirstVar + logSize A1)
    (hk : hd.Named s key) (hne : key.1.chars ≠ []) (hlast : s.pLastReturned = some p) :
    GoesOn s key (p + (Rec.header hd n).size) A2 := by
  have hlog : LogAt s p (.header hd n :: A2) := by
    have := S.logAt
    rw [hA] at this
    rw [hp]
    exact this.drop
  have hvar : nvIsVariable s p = true := nvIsVariable_eq hlog.head_at hlog.head_fits
  have heq : (nvVarEq s p key.1 key.2).isSome = true := by
    rw [nvVarEq_eq hlog.head_at, if_pos ⟨hk.1.symm, hk.2⟩]
    rfl
  have hcur : currentNvar s key = some p := by
    unfold currentNvar
    rw [hlast, Option.filter_some, if_pos (by rw [hvar, heq]; rfl)]
  unfold GoesOn nvGetNextVariableNvar
  rw [hcur, Option.bind_some, nvGetNextValid_eq hlog]
  cases (placed (p + (Rec.header hd n).size) A2).find? fun x => x.2.live.isSome <;> simp [hne]

/-! ## What is read of a variable -/

variable {p q : Nat} {hd : Header} {rf : Rec}

/-- The data of a variable is shorter than its record. -/
theorem Rec.payload_lt (r : Rec) : r.payload.length + sizeofNvar ≤ r.size := by
  cases r with
  | header hd n =>
    simp only [Rec.payload, Rec.size, Rec.raw, Header.raw, Raw.size, Header.contents,
      List.length_append]
    omega
  | data d n =>
    simp only [Rec.payload, Rec.size, Rec.raw, DataRec.raw, Raw.size, List.length_append]
    omega
  | broken f b =>
    simp only [Rec.payload, Rec.size, Rec.raw, Raw.size, List.length_nil]
    omega

/-- The name of a variable is shorter than its header record. -/
theorem Header.name_lt (hd : Header) (n : Nat) :
    nameSize hd.ascii hd.name + sizeofNvar < (Rec.header hd n).size := by
  have hb := hd.ref.bytes_length
  have hpos : 0 < hd.ref.bytes.length := by
    rw [hb]
    unfold sizeofGuid
    split <;> omega
  simp only [Rec.size, Rec.raw, Header.raw, Raw.size, Header.contents, Header.key,
    List.length_append, nameBytes_length]
  omega

/-- The extended header of a record with an authentication part. -/
theorem header_ext (h : RecAt m p (.header hd n))
    (hs : (Rec.header hd n).size < 65536) (ha : hd.auth = some a) :
    Holds m (nvGetExtFlags m p + 1) (leBytes 8 a.mc.toNat ++ a.keyHash) := by
  obtain ⟨c, -, htail⟩ := extTail_eq (hd.auth.map HdrAuth.authFields) hd.cks (hd.flagsWith true)
    hd.contents (by simp [ha])
  have hb : (hd.raw n).body = hd.contents ++ _ := rfl
  rw [htail] at hb
  obtain ⟨hx, -, -, hf⟩ := h.ext hb hs
  rw [hx]
  simpa [ha, HdrAuth.authFields] using hf

theorem data_ext {d : DataRec} (h : RecAt m p (.data d n))
    (hs : (Rec.data d n).size < 65536) (ha : d.auth = some mc) :
    Holds m (nvGetExtFlags m p + 1) (leBytes 8 mc.toNat) := by
  obtain ⟨c, -, htail⟩ := extTail_eq d.authFields d.cks (dataFlags d.auth.isSome d.cks) d.data
    (by simp [DataRec.authFields, ha])
  have hb : (d.raw n).body = d.data ++ _ := rfl
  rw [htail] at hb
  obtain ⟨hx, -, -, hf⟩ := h.ext hb hs
  rw [hx]
  simpa [ha, DataRec.authFields] using hf

/-- The count or time stamp of a record, where `GetVarAuthExtFlags` looks for it. -/
theorem count_read (h : RecAt m p rf) (hs : rf.size < 65536)
    (hc : rf.count = some mc) : UInt64.ofNat (rd m 8 (nvGetExtFlags m p + 1)) = mc := by
  have hh : Holds m (nvGetExtFlags m p + 1) (leBytes 8 mc.toNat) := by
    cases rf with
    | broken f b => exact absurd hc (by simp [Rec.count])
    | data d n => exact data_ext h hs hc
    | header hd n =>
      obtain ⟨a, ha, rfl⟩ := Option.map_eq_some_iff.mp (show hd.auth.map HdrAuth.mc = some mc from hc)
      exact (holds_append.mp (header_ext h hs ha)).1
  rw [hh.rd_eq_of_lt mc.toNat_lt]
  simp

/-- `GetVarAuthExtFlags` finds the count of the last record and the key hash of the
header. -/
theorem Store.authExtFlags (S : Store h s D A T)
    (hv : VarAt (placed h (D ++ (A ++ T))) p hd q rf) (ha : hd.auth = some a)
    (ext : ExtSecFlags) :
    rf.count = some (getVarAuthExtFlags s p ext).mc
      ∧ a.keyHash = (getVarAuthExtFlags s p ext).keyHash := by
  obtain ⟨hdn, hqm, -, -⟩ := S.data_at hv
  obtain ⟨hval, n, hm, hc⟩ := hv
  have hA := S.mem_walked hm hval
  have hat := S.logAt.mem_at hA
  have hlt := lt_trans (S.logAt.fits _ hA).size_lt (show flashEmptySize < 65536 by decide)
  have hcount : rf.count.isSome = true := by
    obtain ⟨q', rf', hc', -, hcount⟩ := S.chains p hd n hm hval
    obtain ⟨-, rfl⟩ := chain_unique (fun _ _ _ => placed_unique) hc hc'
    rw [hcount, ha]
    rfl
  obtain ⟨mc, hmc⟩ := Option.isSome_iff_exists.mp hcount
  obtain ⟨-, -, -, -, -, -, -, -, hf, -⟩ := hd.flags_test
  have hflag : hasFlag s.mem p (flagAuthWrite ||| flagExtHeder) = true := by
    unfold hasFlag
    rw [flagsAt_header hat, hf, ha]
    rfl
  unfold getVarAuthExtFlags
  simp only [hflag, if_true, hdn, Option.getD_some]
  constructor
  · rw [hmc, count_read (S.logAt.mem_at hqm)
      (lt_trans (S.logAt.fits _ hqm).size_lt (by decide)) hmc]
  · have hh := header_ext hat hlt ha
    rw [holds_append, leBytes_length] at hh
    exact (hh.2.peek_eq a.len.symm).symm

end

end BayTrail.Nvram
