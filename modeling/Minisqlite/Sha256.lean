import Minisqlite.Bytes

/-!
# The incremental SHA-256 of `sha256.rs`

The hasher keeps the chaining state, a 64-byte buffer with `bufferLen` pending
bytes and the number of bytes fed so far. `u32` and `u64` arithmetic wraps, as
`wrapping_add` and `wrapping_mul` do.

`update` and `finish` read and write slices. `tryUpdate` and `tryFinish` are the same
functions with the checks that Rust makes there: `none` is a panic, or a loop that is
not done after so many rounds.
-/

namespace Minisqlite

/-- `[u32; 8]`, the chaining state. -/
structure HashState where
  a : UInt32
  b : UInt32
  c : UInt32
  d : UInt32
  e : UInt32
  f : UInt32
  g : UInt32
  h : UInt32
deriving DecidableEq

/-- `Sha256`: `buffer` is the whole 64-byte array. -/
structure Sha256 where
  state : HashState
  buffer : Bytes
  bufferLen : Nat
  totalLen : UInt64
deriving DecidableEq

namespace Sha256

/-- `K`. -/
def roundConstants : List UInt32 :=
  [0x428a2f98, 0x71374491, 0xb5c0fbcf, 0xe9b5dba5, 0x3956c25b, 0x59f111f1, 0x923f82a4, 0xab1c5ed5,
   0xd807aa98, 0x12835b01, 0x243185be, 0x550c7dc3, 0x72be5d74, 0x80deb1fe, 0x9bdc06a7, 0xc19bf174,
   0xe49b69c1, 0xefbe4786, 0x0fc19dc6, 0x240ca1cc, 0x2de92c6f, 0x4a7484aa, 0x5cb0a9dc, 0x76f988da,
   0x983e5152, 0xa831c66d, 0xb00327c8, 0xbf597fc7, 0xc6e00bf3, 0xd5a79147, 0x06ca6351, 0x14292967,
   0x27b70a85, 0x2e1b2138, 0x4d2c6dfc, 0x53380d13, 0x650a7354, 0x766a0abb, 0x81c2c92e, 0x92722c85,
   0xa2bfe8a1, 0xa81a664b, 0xc24b8b70, 0xc76c51a3, 0xd192e819, 0xd6990624, 0xf40e3585, 0x106aa070,
   0x19a4c116, 0x1e376c08, 0x2748774c, 0x34b0bcb5, 0x391c0cb3, 0x4ed8aa4a, 0x5b9cca4f, 0x682e6ff3,
   0x748f82ee, 0x78a5636f, 0x84c87814, 0x8cc70208, 0x90befffa, 0xa4506ceb, 0xbef9a3f7, 0xc67178f2]

/-- `H0`. -/
def initialState : HashState :=
  ⟨0x6a09e667, 0xbb67ae85, 0x3c6ef372, 0xa54ff53a, 0x510e527f, 0x9b05688c, 0x1f83d9ab, 0x5be0cd19⟩

/-- `u32::rotate_right`, for `0 < n < 32`. -/
def rotateRight (x n : UInt32) : UInt32 := (x >>> n) ||| (x <<< (32 - n))

/-- `u32::from_be_bytes` of each four bytes. -/
def blockWords : Bytes → List UInt32
  | p :: q :: r :: s :: rest =>
    (p.toUInt32 <<< 24 ||| q.toUInt32 <<< 16 ||| r.toUInt32 <<< 8 ||| s.toUInt32) :: blockWords rest
  | _ => []

/-- The next word of the message schedule, from the words before it. -/
def nextWord (w : List UInt32) (i : Nat) : UInt32 :=
  let w15 := w.getD (i - 15) 0
  let w2 := w.getD (i - 2) 0
  let s0 := rotateRight w15 7 ^^^ rotateRight w15 18 ^^^ (w15 >>> 3)
  let s1 := rotateRight w2 17 ^^^ rotateRight w2 19 ^^^ (w2 >>> 10)
  w.getD (i - 16) 0 + s0 + w.getD (i - 7) 0 + s1

def messageSchedule (block : Bytes) : List UInt32 :=
  (List.range' 16 48).foldl (fun w i => w ++ [nextWord w i]) (blockWords block)

/-- One of the 64 rounds, with its constant and its word. -/
def round (s : HashState) (kw : UInt32 × UInt32) : HashState :=
  let s1 := rotateRight s.e 6 ^^^ rotateRight s.e 11 ^^^ rotateRight s.e 25
  let ch := (s.e &&& s.f) ^^^ (~~~s.e &&& s.g)
  let t1 := s.h + s1 + ch + kw.1 + kw.2
  let s0 := rotateRight s.a 2 ^^^ rotateRight s.a 13 ^^^ rotateRight s.a 22
  let maj := (s.a &&& s.b) ^^^ (s.a &&& s.c) ^^^ (s.b &&& s.c)
  let t2 := s0 + maj
  { a := t1 + t2, b := s.a, c := s.b, d := s.c, e := s.d + t1, f := s.e, g := s.f, h := s.g }

def compress (state : HashState) (block : Bytes) : HashState :=
  let s := (roundConstants.zip (messageSchedule block)).foldl round state
  { a := state.a + s.a, b := state.b + s.b, c := state.c + s.c, d := state.d + s.d,
    e := state.e + s.e, f := state.f + s.f, g := state.g + s.g, h := state.h + s.h }

/-- `Sha256::new`. -/
def new : Sha256 :=
  { state := initialState, buffer := List.replicate 64 0, bufferLen := 0, totalLen := 0 }

/-- `buffer[offset..offset + src.len()].copy_from_slice(src)`. -/
def copyInto (buffer : Bytes) (offset : Nat) (src : Bytes) : Bytes :=
  buffer.take offset ++ src ++ buffer.drop (offset + src.length)

/-- The first part of `update`: top up a buffer that has pending bytes. -/
def fillBuffer (self : Sha256) (data : Bytes) : Sha256 × Bytes :=
  if self.bufferLen > 0 then
    let taken := min (64 - self.bufferLen) data.length
    let buffer := copyInto self.buffer self.bufferLen (data.take taken)
    let bufferLen := self.bufferLen + taken
    if bufferLen = 64 then
      ({ self with state := compress self.state buffer, buffer := buffer, bufferLen := 0 },
        data.drop taken)
    else ({ self with buffer := buffer, bufferLen := bufferLen }, data.drop taken)
  else (self, data)

/-- `while data.len() >= 64`; the fuel is the length of the data. -/
def compressBlocks : Nat → HashState → Bytes → HashState × Bytes
  | 0, state, data => (state, data)
  | fuel + 1, state, data =>
    if data.length ≥ 64 then
      compressBlocks fuel (compress state (data.take 64)) (data.drop 64)
    else (state, data)

/-- `Sha256::update`. -/
def update (self : Sha256) (data : Bytes) : Sha256 :=
  let counted := { self with totalLen := self.totalLen + UInt64.ofNat data.length }
  let (filled, data) := fillBuffer counted data
  let (state, data) := compressBlocks data.length filled.state data
  if data.isEmpty then { filled with state := state }
  else
    { filled with
      state := state, buffer := copyInto filled.buffer 0 data, bufferLen := data.length }

/-- `while self.buffer_len != 56 { self.update(&[0]) }`; 64 rounds are enough. -/
def padZeros : Nat → Sha256 → Sha256
  | 0, self => self
  | fuel + 1, self => if self.bufferLen ≠ 56 then padZeros fuel (self.update [0]) else self

/-- The output bytes: the eight words, big-endian. -/
def outputBytes (s : HashState) : Bytes :=
  [s.a, s.b, s.c, s.d, s.e, s.f, s.g, s.h].flatMap fun word => toBeBytes 4 word.toNat

/-- `Sha256::finish`. -/
def finish (self : Sha256) : Bytes :=
  let bitLen := self.totalLen * 8
  let padded := padZeros 64 (self.update [0x80])
  outputBytes (padded.update (toBeBytes 8 bitLen.toNat)).state

theorem finish_length (self : Sha256) : self.finish.length = 32 := by
  simp [finish, outputBytes]

/-! ## With the checks of the slices -/

/-- `&bytes[lo..hi]`. -/
def slice (bytes : Bytes) (lo hi : Nat) : Option Bytes :=
  if lo ≤ hi ∧ hi ≤ bytes.length then some ((bytes.take hi).drop lo) else none

/-- `bytes[lo..hi].copy_from_slice(src)`. -/
def copyFromSlice (bytes : Bytes) (lo hi : Nat) (src : Bytes) : Option Bytes :=
  if lo ≤ hi ∧ hi ≤ bytes.length ∧ src.length = hi - lo then
    some (bytes.take lo ++ src ++ bytes.drop hi)
  else none

def tryFillBuffer (self : Sha256) (data : Bytes) : Option (Sha256 × Bytes) :=
  if self.bufferLen > 0 then do
    -- `64 - self.buffer_len` must not be negative.
    guard (self.bufferLen ≤ 64)
    let taken := min (64 - self.bufferLen) data.length
    let src ← slice data 0 taken
    let buffer ← copyFromSlice self.buffer self.bufferLen (self.bufferLen + taken) src
    let bufferLen := self.bufferLen + taken
    let data ← slice data taken data.length
    if bufferLen = 64 then
      pure ({ self with state := compress self.state buffer, buffer := buffer, bufferLen := 0 },
        data)
    else pure ({ self with buffer := buffer, bufferLen := bufferLen }, data)
  else pure (self, data)

def tryCompressBlocks (fuel : Nat) (state : HashState) (data : Bytes) :
    Option (HashState × Bytes) :=
  if data.length ≥ 64 then
    match fuel with
    | 0 => none
    | fuel + 1 => do
      let block ← slice data 0 64
      let rest ← slice data 64 data.length
      let fixed ← copyFromSlice (List.replicate 64 0) 0 64 block
      tryCompressBlocks fuel (compress state fixed) rest
  else pure (state, data)

def tryUpdate (self : Sha256) (data : Bytes) : Option Sha256 := do
  let counted := { self with totalLen := self.totalLen + UInt64.ofNat data.length }
  let (filled, data) ← tryFillBuffer counted data
  let (state, data) ← tryCompressBlocks data.length filled.state data
  if data.isEmpty then pure { filled with state := state }
  else do
    let buffer ← copyFromSlice filled.buffer 0 data.length data
    pure { filled with state := state, buffer := buffer, bufferLen := data.length }

def tryPadZeros (fuel : Nat) (self : Sha256) : Option Sha256 :=
  if self.bufferLen ≠ 56 then
    match fuel with
    | 0 => none
    | fuel + 1 => self.tryUpdate [0] >>= tryPadZeros fuel
  else some self

def tryFinish (fuel : Nat) (self : Sha256) : Option Bytes := do
  let bitLen := self.totalLen * 8
  let marked ← self.tryUpdate [0x80]
  let padded ← tryPadZeros fuel marked
  let last ← padded.tryUpdate (toBeBytes 8 bitLen.toNat)
  pure (outputBytes last.state)

end Sha256

end Minisqlite
