import BayTrail.Lib.Blocks
import BayTrail.Lib.Turning
import BayTrail.Lib.Bytes
import BayTrail.Lib.Run

/-!
# SHA-256

The hash function that images and capsules are checked with. The rounds come as small code and as fast code; a
message may come in pieces.
-/

namespace BayTrail.Crypto

open Lib

/-- A `u32`. -/
abbrev Word := BitVec 32

/-- `state[8]`. -/
abbrev Chain := Vector Word 8

/-! ## The rounds -/

/-- `S(x, n)`, which is `RORc(x, n)`, and `ROTR(x, n)`. -/
def rotr (x : Word) (n : Nat) : Word := x >>> n ||| x <<< (32 - n)

/-- `Ch`, and `F1` of the fast code. -/
def ch (x y z : Word) : Word := z ^^^ (x &&& (y ^^^ z))

def maj (x y z : Word) : Word := ((x ||| y) &&& z) ||| (x &&& y)

/-- `F0` of the fast code. -/
def f0 (x y z : Word) : Word := (x &&& y) ||| (z &&& (x ||| y))

/-- `Sigma0`, `S2`. -/
def sigma0 (x : Word) : Word := rotr x 2 ^^^ rotr x 13 ^^^ rotr x 22

/-- `Sigma1`, `S3`. -/
def sigma1 (x : Word) : Word := rotr x 6 ^^^ rotr x 11 ^^^ rotr x 25

/-- `Gamma0`, `S0`. -/
def gamma0 (x : Word) : Word := rotr x 7 ^^^ rotr x 18 ^^^ x >>> 3

/-- `Gamma1`, `S1`. -/
def gamma1 (x : Word) : Word := rotr x 17 ^^^ rotr x 19 ^^^ x >>> 10

def byteAt (b : Bytes) (p : Nat) : Word := (b.getD p 0).toBitVec.setWidth 32

/-- `WPA_GET_BE32(b + p)`, `GET_UINT32_BE`. -/
def getBe32 (b : Bytes) (p : Nat) : Word :=
  byteAt b p <<< 24 ||| byteAt b (p + 1) <<< 16 ||| byteAt b (p + 2) <<< 8 ||| byteAt b (p + 3)

/-- The `K` array of the small code. -/
def K : List Word := [
  0x428a2f98, 0x71374491, 0xb5c0fbcf, 0xe9b5dba5, 0x3956c25b, 0x59f111f1, 0x923f82a4, 0xab1c5ed5, 0xd807aa98, 0x12835b01,
  0x243185be, 0x550c7dc3, 0x72be5d74, 0x80deb1fe, 0x9bdc06a7, 0xc19bf174, 0xe49b69c1, 0xefbe4786, 0x0fc19dc6, 0x240ca1cc,
  0x2de92c6f, 0x4a7484aa, 0x5cb0a9dc, 0x76f988da, 0x983e5152, 0xa831c66d, 0xb00327c8, 0xbf597fc7, 0xc6e00bf3, 0xd5a79147,
  0x06ca6351, 0x14292967, 0x27b70a85, 0x2e1b2138, 0x4d2c6dfc, 0x53380d13, 0x650a7354, 0x766a0abb, 0x81c2c92e, 0x92722c85,
  0xa2bfe8a1, 0xa81a664b, 0xc24b8b70, 0xc76c51a3, 0xd192e819, 0xd6990624, 0xf40e3585, 0x106aa070, 0x19a4c116, 0x1e376c08,
  0x2748774c, 0x34b0bcb5, 0x391c0cb3, 0x4ed8aa4a, 0x5b9cca4f, 0x682e6ff3, 0x748f82ee, 0x78a5636f, 0x84c87814, 0x8cc70208,
  0x90befffa, 0xa4506ceb, 0xbef9a3f7, 0xc67178f2]

/-- The constants in the calls of `P`. -/
def fastK : List Word := [
  0x428A2F98, 0x71374491, 0xB5C0FBCF, 0xE9B5DBA5, 0x3956C25B, 0x59F111F1, 0x923F82A4, 0xAB1C5ED5, 0xD807AA98, 0x12835B01,
  0x243185BE, 0x550C7DC3, 0x72BE5D74, 0x80DEB1FE, 0x9BDC06A7, 0xC19BF174, 0xE49B69C1, 0xEFBE4786, 0x0FC19DC6, 0x240CA1CC,
  0x2DE92C6F, 0x4A7484AA, 0x5CB0A9DC, 0x76F988DA, 0x983E5152, 0xA831C66D, 0xB00327C8, 0xBF597FC7, 0xC6E00BF3, 0xD5A79147,
  0x06CA6351, 0x14292967, 0x27B70A85, 0x2E1B2138, 0x4D2C6DFC, 0x53380D13, 0x650A7354, 0x766A0ABB, 0x81C2C92E, 0x92722C85,
  0xA2BFE8A1, 0xA81A664B, 0xC24B8B70, 0xC76C51A3, 0xD192E819, 0xD6990624, 0xF40E3585, 0x106AA070, 0x19A4C116, 0x1E376C08,
  0x2748774C, 0x34B0BCB5, 0x391C0CB3, 0x4ED8AA4A, 0x5B9CCA4F, 0x682E6FF3, 0x748F82EE, 0x78A5636F, 0x84C87814, 0x8CC70208,
  0x90BEFFFA, 0xA4506CEB, 0xBEF9A3F7, 0xC67178F2]

/-- `W[i] = Gamma1(W[i - 2]) + W[i - 7] + Gamma0(W[i - 15]) + W[i - 16]`, and `R2(i)`. -/
def expand (W : List Word) (i : Nat) : List Word :=
  W.set i (gamma1 (W.getD (i - 2) 0) + W.getD (i - 7) 0 + gamma0 (W.getD (i - 15) 0) + W.getD (i - 16) 0)

/-- `W[64]`: the first 16 are read from the block, the others are not set yet. -/
def loaded (buf : Bytes) : List Word := (List.range 16).map (fun i => getBe32 buf (4 * i)) ++ List.replicate 48 0

/-- `W[16..n - 1]` are filled as well. -/
def filled (buf : Bytes) (n : Nat) : List Word := (List.range' 16 (n - 16)).foldl expand (loaded buf)

/-- `RND(S[0], .., S[7], i)`. -/
def rnd (k x : Word) (S : Chain) : Chain :=
  let t0 := S.get 7 + sigma1 (S.get 4) + ch (S.get 4) (S.get 5) (S.get 6) + k + x
  let t1 := sigma0 (S.get 0) + maj (S.get 0) (S.get 1) (S.get 2)
  setReg (setReg S 3 (S.get 3 + t0)) 7 (t0 + t1)

/-- `P(a, .., h, x, K)`, with the registers that stand for `a` to `h`. -/
def pRound (reg : Fin 8 → Fin 8) (k x : Word) (S : Chain) : Chain :=
  let temp1 := S.get (reg 7) + sigma1 (S.get (reg 4)) + ch (S.get (reg 4)) (S.get (reg 5)) (S.get (reg 6)) + k + x
  let temp2 := sigma0 (S.get (reg 0)) + f0 (S.get (reg 0)) (S.get (reg 1)) (S.get (reg 2))
  setReg (setReg S (reg 3) (S.get (reg 3) + temp1)) (reg 7) (temp1 + temp2)

/-- `sha256_compress` with `HASH_SMALL_CODE`: after each round `t = S[7]; S[7] = S[6]; ..; S[1] = S[0]; S[0] = t`. -/
def compressSmall (state : Chain) (buf : Bytes) : Chain :=
  let W := filled buf 64
  let S := (List.range 64).foldl (fun S i => turned 1 (rnd (K.getD i 0) (W.getD i 0) S)) state
  Vector.zipWith (· + ·) state S

/-- `sha256_compress` without: `P(A, B, .., H, ..)`, `P(H, A, .., G, ..)` .. name the registers one further in each
round, and from round 16 on `R2(i)` makes `W[i]` just when it is needed. -/
def compressFast (state : Chain) (buf : Bytes) : Chain :=
  let done := (List.range 64).foldl (fun (s : List Word × Chain) i =>
    let W := if 16 ≤ i then expand s.1 i else s.1
    (W, pRound (standing i) (fastK.getD i 0) (W.getD i 0) s.2)) (loaded buf, state)
  Vector.zipWith (· + ·) state done.2

/-- `sha256_compress`, with `HASH_SMALL_CODE` or without. It always returns 0. -/
def sha256Compress (small : Bool) : Chain → Bytes → Chain := if small then compressSmall else compressFast

/-! ## The message -/

/-- `(u8)(x >> n)`. -/
def octet {w : Nat} (x : BitVec w) (n : Nat) : UInt8 := ⟨(x >>> n).setWidth 8⟩

/-- `WPA_PUT_BE32`. -/
def putBe32 (x : Word) : Bytes := [octet x 24, octet x 16, octet x 8, octet x 0]

/-- `WPA_PUT_BE64`. -/
def putBe64 (x : BitVec 64) : Bytes :=
  [octet x 56, octet x 48, octet x 40, octet x 32, octet x 24, octet x 16, octet x 8, octet x 0]

/-- `struct sha256_state`. -/
structure Sha256State where
  length : BitVec 64
  state : Chain
  curlen : Nat
  buf : Mem

/-- The values `sha256_init` gives `state`. -/
def firstChain : Chain := #v[
  0x6A09E667, 0xBB67AE85, 0x3C6EF372, 0xA54FF53A, 0x510E527F, 0x9B05688C, 0x1F83D9AB, 0x5BE0CD19]

/-- `sha256_init`: `buf` stays as it was. -/
def sha256Init (md : Sha256State) : Sha256State := { md with curlen := 0, length := 0, state := firstChain }

variable (small : Bool)

/-- `while (inlen > 0) { .. }`, with what is left of the input. -/
def processBody (s : Sha256State × Bytes) : Run (Next (Sha256State × Bytes) Sha256State) :=
  let md := s.1
  let inp := s.2
  if inp = [] then pure (.done md)
  else if md.curlen = 0 ∧ 64 ≤ inp.length then
    -- straight from the input
    let state := sha256Compress small md.state (inp.take 64)
    pure (.again ({ md with state := state, length := md.length + 512 }, inp.drop 64))
  else
    let n := min inp.length (64 - md.curlen)
    let buf := poke md.buf md.curlen (inp.take n)
    let curlen := md.curlen + n
    if curlen = 64 then
      pure (.again (⟨md.length + 512, sha256Compress small md.state (peek buf 0 64), 0, buf⟩, inp.drop n))
    else pure (.again ({ md with buf := buf, curlen := curlen }, inp.drop n))

/-- `sha256_process`: what it returns, and the state. -/
def sha256Process (md : Sha256State) (inp : Bytes) : Run (Int × Sha256State) :=
  if 64 < md.curlen then pure (-1, md)
  else do
    let md' ← Run.loop (processBody small) (md, inp)
    pure (0, md')

/-- `while (md->curlen < ..) md->buf[md->curlen++] = 0`, so many times. -/
def zeroFill (buf : Mem) (curlen : Nat) : Nat → Mem
  | 0 => buf
  | n + 1 => zeroFill (poke buf curlen [0]) (curlen + 1) n

/-- What is written to `out`. -/
def output (state : Chain) : Bytes := state.toList.flatMap putBe32

/-- `sha256_done`: what is in `out`, unless it returns -1. -/
def sha256Done (md : Sha256State) : Option Bytes :=
  if 64 ≤ md.curlen then none
  else
    let length := md.length + BitVec.ofNat 64 (md.curlen * 8)
    let buf := poke md.buf md.curlen [0x80]
    let curlen := md.curlen + 1
    if 56 < curlen then
      -- the length is for a block of its own
      let full := zeroFill buf curlen (64 - curlen)
      let state := sha256Compress small md.state (peek full 0 64)
      let last := poke (zeroFill full 0 56) 56 (putBe64 length)
      some (output (sha256Compress small state (peek last 0 64)))
    else
      let last := poke (zeroFill buf curlen (56 - curlen)) 56 (putBe64 length)
      some (output (sha256Compress small md.state (peek last 0 64)))

/-- `sha256_vector`: what is in `mac` afterwards. Nothing is known of `ctx` at the beginning. -/
def sha256Vector (ctx : Sha256State) (pieces : List Bytes) : Run (Option Bytes) := do
  let md ← pieces.foldlM (fun md piece => do
    let r ← sha256Process small md piece
    pure r.2) (sha256Init ctx)
  pure (sha256Done small md)

end BayTrail.Crypto
