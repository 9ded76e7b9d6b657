import MemoryHard.Data.LittleEndian

/-!
# The Keccak sponge with its first padding

The state is a five by five plane of 64-bit lanes.  A message is padded by a one
bit, zeros and a final one bit, without the suffix of the later standard, and is
absorbed `rate` bytes at a time.
-/

namespace MemoryHard.Keccak

abbrev Lane := UInt64

/-- Lane `(x, y)` stands at position `5 * y + x`. -/
abbrev State := Vector Lane 25

def State.lane (state : State) (x y : Fin 5) : Lane :=
  state[5 * y.val + x.val]

/-- The state whose lane at `(x, y)` is given. -/
def State.ofLanes (lane : (x y : Fin 5) → Lane) : State :=
  Vector.ofFn fun position =>
    lane ⟨position.val % 5, by omega⟩ ⟨position.val / 5, by omega⟩

def rotateLeft (lane amount : Lane) : Lane :=
  lane <<< amount ||| lane >>> (64 - amount)

def rotations : State :=
  #v[0, 1, 62, 28, 27,
    36, 44, 6, 55, 20,
    3, 10, 43, 25, 39,
    41, 45, 15, 21, 8,
    18, 2, 61, 56, 14]

def roundConstants : List Lane := [
  0x0000000000000001, 0x0000000000008082, 0x800000000000808a, 0x8000000080008000,
  0x000000000000808b, 0x0000000080000001, 0x8000000080008081, 0x8000000000008009,
  0x000000000000008a, 0x0000000000000088, 0x0000000080008009, 0x000000008000000a,
  0x000000008000808b, 0x800000000000008b, 0x8000000000008089, 0x8000000000008003,
  0x8000000000008002, 0x8000000000000080, 0x000000000000800a, 0x800000008000000a,
  0x8000000080008081, 0x8000000000008080, 0x0000000080000001, 0x8000000080008008]

/-- Flip every lane by the parities of the two neighbouring columns. -/
def theta (state : State) : State :=
  let parity : Vector Lane 5 := Vector.ofFn fun x =>
    state.lane x 0 ^^^ state.lane x 1 ^^^ state.lane x 2 ^^^ state.lane x 3 ^^^ state.lane x 4
  let flip : Vector Lane 5 := Vector.ofFn fun x =>
    parity[x + 4] ^^^ rotateLeft parity[x + 1] 1
  State.ofLanes fun x y => state.lane x y ^^^ flip[x]

/-- Rotate every lane and move it to its new place. -/
def rhoPi (state : State) : State :=
  State.ofLanes fun x y =>
    rotateLeft (state.lane (x + 3 * y) x) (rotations.lane (x + 3 * y) x)

def chi (state : State) : State :=
  State.ofLanes fun x y =>
    state.lane x y ^^^ (~~~state.lane (x + 1) y &&& state.lane (x + 2) y)

def round (state : State) (constant : Lane) : State :=
  let mixed := chi (rhoPi (theta state))
  mixed.set 0 (mixed[0] ^^^ constant)

def permute (state : State) : State :=
  roundConstants.foldl round state

/-- The message, a one bit, zeros and a one bit, filling whole pieces of `rate` bytes. -/
def pad (rate : Nat) (message : Bytes) : Bytes :=
  match rate - message.length % rate - 1 with
  | 0 => message ++ [0x81]
  | room + 1 => message ++ 0x01 :: List.replicate room 0 ++ [0x80]

def absorb {rate : Nat} (state : State) (piece : Vector UInt8 rate) : State :=
  let lanes := (chunks 8 piece.toList).toArray.map
    fun bytes => UInt64.ofNat (ofLittleEndian bytes.toList)
  permute (Vector.ofFn fun position => state[position] ^^^ lanes.getD position 0)

/-- The first `count` bytes of the state that the message leads to. -/
def digest (rate : Nat) (count : Nat) (fits : count ≤ 200) (message : Bytes) :
    Vector UInt8 count :=
  let state := (chunks rate (pad rate message)).foldl absorb (Vector.replicate 25 0)
  let bytes := state.toList.flatMap fun lane => littleEndian 8 lane.toNat
  ⟨(bytes.take count).toArray, by
    have length : bytes.length = 200 := by
      simp [bytes, List.length_flatMap, List.map_const']
    rw [List.size_toArray, List.length_take, length]
    omega⟩

def keccak256 : Bytes → Vector UInt8 32 :=
  digest 136 32 (by decide)

def keccak512 : Bytes → Vector UInt8 64 :=
  digest 72 64 (by decide)

/-- The whole state after absorbing at the rate of `keccak256`. -/
def keccak256State : Bytes → Vector UInt8 200 :=
  digest 136 200 (by decide)

end MemoryHard.Keccak
