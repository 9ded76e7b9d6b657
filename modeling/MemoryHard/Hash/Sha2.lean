import MemoryHard.Data.LittleEndian

/-!
# The SHA-2 family

One compression scheme serves both word widths.  A `Family` fixes the width, the
round constants and the four mixing functions; a member of the family is an
initial state together with the number of bytes that it publishes.
-/

namespace MemoryHard.Sha2

/-- What the 32-bit and the 64-bit half of the family do differently. -/
structure Family (Lane : Type) where
  laneBytes : Nat
  ofNat : Nat → Lane
  toNat : Lane → Nat
  roundConstants : List Lane
  bigSigma0 : Lane → Lane
  bigSigma1 : Lane → Lane
  smallSigma0 : Lane → Lane
  smallSigma1 : Lane → Lane

structure State (Lane : Type) where
  a : Lane
  b : Lane
  c : Lane
  d : Lane
  e : Lane
  f : Lane
  g : Lane
  h : Lane

variable {Lane : Type} [Add Lane] [AndOp Lane] [XorOp Lane] [Complement Lane]

/-- A block of sixteen lanes followed by `extra` derived ones. -/
@[specialize] def schedule (family : Family Lane) (block : Vector Lane 16) :
    (extra : Nat) → Vector Lane (16 + extra)
  | 0 => block
  | extra + 1 =>
      let lanes := schedule family block extra
      lanes.push (family.smallSigma1 lanes[extra + 14] + lanes[extra + 9]
        + family.smallSigma0 lanes[extra + 1] + lanes[extra])

@[specialize] def round (family : Family Lane) (state : State Lane) (constant lane : Lane) :
    State Lane :=
  let choice := (state.e &&& state.f) ^^^ (~~~state.e &&& state.g)
  let majority := (state.a &&& state.b) ^^^ (state.a &&& state.c) ^^^ (state.b &&& state.c)
  let first := state.h + family.bigSigma1 state.e + choice + constant + lane
  let second := family.bigSigma0 state.a + majority
  { a := first + second, b := state.a, c := state.b, d := state.c
    e := state.d + first, f := state.e, g := state.f, h := state.g }

@[specialize] def compress (family : Family Lane) (state : State Lane) (block : Vector Lane 16) :
    State Lane :=
  let rounds := family.roundConstants.length
  let lanes := (schedule family block (rounds - 16)).toList
  let mixed := (family.roundConstants.zip lanes).foldl
    (fun state (constant, lane) => round family state constant lane) state
  { a := state.a + mixed.a, b := state.b + mixed.b
    c := state.c + mixed.c, d := state.d + mixed.d
    e := state.e + mixed.e, f := state.f + mixed.f
    g := state.g + mixed.g, h := state.h + mixed.h }

/-- The message, a one bit, zeros, and the bit length in two lanes, which fill whole
blocks of sixteen lanes. -/
def pad (laneBytes : Nat) (message : Bytes) : Bytes :=
  let blockBytes := 16 * laneBytes
  let lengthBytes := 2 * laneBytes
  let used := (message.length + 1 + lengthBytes) % blockBytes
  message ++ 0x80 :: List.replicate ((blockBytes - used) % blockBytes) 0
    ++ (littleEndian lengthBytes (8 * message.length)).reverse

/-- The padded message in blocks of sixteen big-endian lanes. -/
def blocks (family : Family Lane) (message : Bytes) :
    List (Vector Lane 16) :=
  chunks 16 ((chunks family.laneBytes (pad family.laneBytes message)).map
    fun bytes => family.ofNat (ofLittleEndian bytes.toList.reverse))

def State.lanes (state : State Lane) : Vector Lane 8 :=
  #v[state.a, state.b, state.c, state.d, state.e, state.f, state.g, state.h]

/-- The first `count` bytes of the state that the message leads to. -/
@[specialize] def digest (family : Family Lane) (initial : State Lane)
    (count : Nat) (fits : count ≤ 8 * family.laneBytes) (message : Bytes) :
    Vector UInt8 count :=
  let state := (blocks family message).foldl (compress family) initial
  let bytes := state.lanes.toList.flatMap
    fun lane => (littleEndian family.laneBytes (family.toNat lane)).reverse
  ⟨(bytes.take count).toArray, by simpa [bytes, State.lanes, Nat.add_assoc] using by omega⟩

def rotateRight32 (lane amount : UInt32) : UInt32 :=
  lane >>> amount ||| lane <<< (32 - amount)

def rotateRight64 (lane amount : UInt64) : UInt64 :=
  lane >>> amount ||| lane <<< (64 - amount)

def narrow : Family UInt32 where
  laneBytes := 4
  ofNat := UInt32.ofNat
  toNat := UInt32.toNat
  roundConstants := [
    0x428a2f98, 0x71374491, 0xb5c0fbcf, 0xe9b5dba5, 0x3956c25b, 0x59f111f1, 0x923f82a4, 0xab1c5ed5,
    0xd807aa98, 0x12835b01, 0x243185be, 0x550c7dc3, 0x72be5d74, 0x80deb1fe, 0x9bdc06a7, 0xc19bf174,
    0xe49b69c1, 0xefbe4786, 0x0fc19dc6, 0x240ca1cc, 0x2de92c6f, 0x4a7484aa, 0x5cb0a9dc, 0x76f988da,
    0x983e5152, 0xa831c66d, 0xb00327c8, 0xbf597fc7, 0xc6e00bf3, 0xd5a79147, 0x06ca6351, 0x14292967,
    0x27b70a85, 0x2e1b2138, 0x4d2c6dfc, 0x53380d13, 0x650a7354, 0x766a0abb, 0x81c2c92e, 0x92722c85,
    0xa2bfe8a1, 0xa81a664b, 0xc24b8b70, 0xc76c51a3, 0xd192e819, 0xd6990624, 0xf40e3585, 0x106aa070,
    0x19a4c116, 0x1e376c08, 0x2748774c, 0x34b0bcb5, 0x391c0cb3, 0x4ed8aa4a, 0x5b9cca4f, 0x682e6ff3,
    0x748f82ee, 0x78a5636f, 0x84c87814, 0x8cc70208, 0x90befffa, 0xa4506ceb, 0xbef9a3f7, 0xc67178f2]
  bigSigma0 lane := rotateRight32 lane 2 ^^^ rotateRight32 lane 13 ^^^ rotateRight32 lane 22
  bigSigma1 lane := rotateRight32 lane 6 ^^^ rotateRight32 lane 11 ^^^ rotateRight32 lane 25
  smallSigma0 lane := rotateRight32 lane 7 ^^^ rotateRight32 lane 18 ^^^ lane >>> 3
  smallSigma1 lane := rotateRight32 lane 17 ^^^ rotateRight32 lane 19 ^^^ lane >>> 10

def wide : Family UInt64 where
  laneBytes := 8
  ofNat := UInt64.ofNat
  toNat := UInt64.toNat
  roundConstants := [
    0x428a2f98d728ae22, 0x7137449123ef65cd, 0xb5c0fbcfec4d3b2f, 0xe9b5dba58189dbbc,
    0x3956c25bf348b538, 0x59f111f1b605d019, 0x923f82a4af194f9b, 0xab1c5ed5da6d8118,
    0xd807aa98a3030242, 0x12835b0145706fbe, 0x243185be4ee4b28c, 0x550c7dc3d5ffb4e2,
    0x72be5d74f27b896f, 0x80deb1fe3b1696b1, 0x9bdc06a725c71235, 0xc19bf174cf692694,
    0xe49b69c19ef14ad2, 0xefbe4786384f25e3, 0x0fc19dc68b8cd5b5, 0x240ca1cc77ac9c65,
    0x2de92c6f592b0275, 0x4a7484aa6ea6e483, 0x5cb0a9dcbd41fbd4, 0x76f988da831153b5,
    0x983e5152ee66dfab, 0xa831c66d2db43210, 0xb00327c898fb213f, 0xbf597fc7beef0ee4,
    0xc6e00bf33da88fc2, 0xd5a79147930aa725, 0x06ca6351e003826f, 0x142929670a0e6e70,
    0x27b70a8546d22ffc, 0x2e1b21385c26c926, 0x4d2c6dfc5ac42aed, 0x53380d139d95b3df,
    0x650a73548baf63de, 0x766a0abb3c77b2a8, 0x81c2c92e47edaee6, 0x92722c851482353b,
    0xa2bfe8a14cf10364, 0xa81a664bbc423001, 0xc24b8b70d0f89791, 0xc76c51a30654be30,
    0xd192e819d6ef5218, 0xd69906245565a910, 0xf40e35855771202a, 0x106aa07032bbd1b8,
    0x19a4c116b8d2d0c8, 0x1e376c085141ab53, 0x2748774cdf8eeb99, 0x34b0bcb5e19b48a8,
    0x391c0cb3c5c95a63, 0x4ed8aa4ae3418acb, 0x5b9cca4f7763e373, 0x682e6ff3d6b2b8a3,
    0x748f82ee5defb2fc, 0x78a5636f43172f60, 0x84c87814a1f0ab72, 0x8cc702081a6439ec,
    0x90befffa23631e28, 0xa4506cebde82bde9, 0xbef9a3f7b2c67915, 0xc67178f2e372532b,
    0xca273eceea26619c, 0xd186b8c721c0c207, 0xeada7dd6cde0eb1e, 0xf57d4f7fee6ed178,
    0x06f067aa72176fba, 0x0a637dc5a2c898a6, 0x113f9804bef90dae, 0x1b710b35131c471b,
    0x28db77f523047d84, 0x32caab7b40c72493, 0x3c9ebe0a15c9bebc, 0x431d67c49c100d4c,
    0x4cc5d4becb3e42b6, 0x597f299cfc657e2a, 0x5fcb6fab3ad6faec, 0x6c44198c4a475817]
  bigSigma0 lane := rotateRight64 lane 28 ^^^ rotateRight64 lane 34 ^^^ rotateRight64 lane 39
  bigSigma1 lane := rotateRight64 lane 14 ^^^ rotateRight64 lane 18 ^^^ rotateRight64 lane 41
  smallSigma0 lane := rotateRight64 lane 1 ^^^ rotateRight64 lane 8 ^^^ lane >>> 7
  smallSigma1 lane := rotateRight64 lane 19 ^^^ rotateRight64 lane 61 ^^^ lane >>> 6

def sha224 : Bytes → Vector UInt8 28 :=
  digest narrow {
    a := 0xc1059ed8, b := 0x367cd507
    c := 0x3070dd17, d := 0xf70e5939
    e := 0xffc00b31, f := 0x68581511
    g := 0x64f98fa7, h := 0xbefa4fa4 } 28 (by decide)

def sha256 : Bytes → Vector UInt8 32 :=
  digest narrow {
    a := 0x6a09e667, b := 0xbb67ae85
    c := 0x3c6ef372, d := 0xa54ff53a
    e := 0x510e527f, f := 0x9b05688c
    g := 0x1f83d9ab, h := 0x5be0cd19 } 32 (by decide)

def sha384 : Bytes → Vector UInt8 48 :=
  digest wide {
    a := 0xcbbb9d5dc1059ed8, b := 0x629a292a367cd507
    c := 0x9159015a3070dd17, d := 0x152fecd8f70e5939
    e := 0x67332667ffc00b31, f := 0x8eb44a8768581511
    g := 0xdb0c2e0d64f98fa7, h := 0x47b5481dbefa4fa4 } 48 (by decide)

def sha512 : Bytes → Vector UInt8 64 :=
  digest wide {
    a := 0x6a09e667f3bcc908, b := 0xbb67ae8584caa73b
    c := 0x3c6ef372fe94f82b, d := 0xa54ff53a5f1d36f1
    e := 0x510e527fade682d1, f := 0x9b05688c2b3e6c1f
    g := 0x1f83d9abfb41bd6b, h := 0x5be0cd19137e2179 } 64 (by decide)

def sha512_256 : Bytes → Vector UInt8 32 :=
  digest wide {
    a := 0x22312194fc2bf72c, b := 0x9f555fa3c84c64c2
    c := 0x2393b86b6f53b151, d := 0x963877195940eabd
    e := 0x96283ee2a88effe3, f := 0xbe5e1e2553863992
    g := 0x2b0199fc2c85b8aa, h := 0x0eb72ddc81c52ca2 } 32 (by decide)

end MemoryHard.Sha2
