import MemoryHard.Data.Chunks

/-!
# Words and their little-endian bytes

A word is 32 bits wide and is stored in four bytes, least significant first.
`Word.combine` is the multiply-and-xor step that all mixing is made of.
Reading words from bytes and writing words to bytes are inverse to each other.
-/

namespace MemoryHard

abbrev Bytes := List UInt8

abbrev Word := UInt32

/-- How many bytes a word is stored in. -/
@[simp] abbrev wordBytes : Nat := 4

/-- The `count` low bytes of a number, least significant first. -/
def littleEndian : (count : Nat) → (number : Nat) → Bytes
  | 0, _ => []
  | count + 1, number => UInt8.ofNat number :: littleEndian count (number / 256)

/-- The number whose bytes, least significant first, are given. -/
def ofLittleEndian : Bytes → Nat
  | [] => 0
  | byte :: bytes => byte.toNat + 256 * ofLittleEndian bytes

@[simp] theorem length_littleEndian (count number : Nat) :
    (littleEndian count number).length = count := by
  induction count generalizing number with
  | zero => rfl
  | succ count ih => simp [littleEndian, ih]

theorem ofLittleEndian_littleEndian (count number : Nat) :
    ofLittleEndian (littleEndian count number) = number % Nat.pow 256 count := by
  induction count generalizing number with
  | zero => simp [littleEndian, ofLittleEndian, Nat.mod_one]
  | succ count ih =>
      have larger : Nat.pow 256 (count + 1) = 256 * Nat.pow 256 count :=
        Nat.mul_comm (Nat.pow 256 count) 256
      rw [littleEndian, ofLittleEndian, ih, larger, Nat.mod_mul]
      simp

theorem littleEndian_ofLittleEndian (bytes : Bytes) :
    littleEndian bytes.length (ofLittleEndian bytes) = bytes := by
  induction bytes with
  | nil => rfl
  | cons byte bytes ih =>
      have low : UInt8.ofNat (byte.toNat + 256 * ofLittleEndian bytes) = byte := by
        apply UInt8.toNat_inj.mp
        have bound := byte.toNat_lt
        rw [UInt8.toNat_ofNat']
        omega
      have high : (byte.toNat + 256 * ofLittleEndian bytes) / 256 = ofLittleEndian bytes := by
        have bound := byte.toNat_lt
        omega
      rw [List.length_cons, littleEndian, ofLittleEndian, low, high, ih]

/-- Bytes are flipped one by one. -/
theorem littleEndian_xor (count first second : Nat) :
    littleEndian count (first ^^^ second) =
      List.zipWith (· ^^^ ·) (littleEndian count first) (littleEndian count second) := by
  induction count generalizing first second with
  | zero => rfl
  | succ count ih =>
      have higher : (first ^^^ second) / 256 = first / 256 ^^^ second / 256 :=
        Nat.xor_div_two_pow (n := 8)
      simp only [littleEndian, higher, ih, UInt8.ofNat_xor, List.zipWith_cons_cons]

theorem ofLittleEndian_lt (bytes : Bytes) : ofLittleEndian bytes < Nat.pow 256 bytes.length := by
  induction bytes with
  | nil => simp [ofLittleEndian]
  | cons byte bytes ih =>
      have bound := byte.toNat_lt
      have larger : Nat.pow 256 (bytes.length + 1) = 256 * Nat.pow 256 bytes.length :=
        Nat.mul_comm (Nat.pow 256 bytes.length) 256
      rw [ofLittleEndian, List.length_cons, larger]
      omega

namespace Word

/-- The odd multiplier of `combine`. -/
def multiplier : Word := 0x01000193

/-- Multiply the first word and flip by the second, both modulo `2 ^ 32`. -/
def combine (accumulated next : Word) : Word :=
  accumulated * multiplier ^^^ next

def bytes (word : Word) : Bytes :=
  littleEndian wordBytes word.toNat

def ofBytes (bytes : Vector UInt8 wordBytes) : Word :=
  UInt32.ofNat (ofLittleEndian bytes.toList)

@[simp] theorem length_bytes (word : Word) : (bytes word).length = 4 :=
  length_littleEndian ..

end Word

/-- The words that consecutive groups of bytes stand for. -/
def wordsOfBytes (bytes : Bytes) : List Word :=
  (chunks wordBytes bytes).map Word.ofBytes

def bytesOfWords (words : List Word) : Bytes :=
  words.flatMap Word.bytes

theorem Word.ofBytes_bytes (word : Word) :
    Word.ofBytes ⟨(Word.bytes word).toArray, by simp⟩ = word := by
  apply UInt32.toNat_inj.mp
  have bound := word.toNat_lt
  have values : Nat.pow 256 4 = 2 ^ 32 := rfl
  simp only [Word.ofBytes, Word.bytes, Vector.toList_mk, ofLittleEndian_littleEndian,
    UInt32.toNat_ofNat', values]
  omega

theorem Word.bytes_ofBytes (bytes : Vector UInt8 4) :
    Word.bytes (Word.ofBytes bytes) = bytes.toList := by
  have bound := ofLittleEndian_lt bytes.toList
  have restored := littleEndian_ofLittleEndian bytes.toList
  have values : Nat.pow 256 4 = 2 ^ 32 := rfl
  rw [Vector.length_toList, values] at bound
  rw [Vector.length_toList] at restored
  rw [Word.bytes, Word.ofBytes, UInt32.toNat_ofNat', Nat.mod_eq_of_lt (by omega), restored]

theorem Word.ofLittleEndian_bytes (word : Word) :
    ofLittleEndian (Word.bytes word) = word.toNat := by
  rw [Word.bytes, ofLittleEndian_littleEndian]
  exact Nat.mod_eq_of_lt word.toNat_lt

theorem Word.bytes_xor (first second : Word) :
    Word.bytes (first ^^^ second) =
      List.zipWith (· ^^^ ·) (Word.bytes first) (Word.bytes second) := by
  rw [Word.bytes, UInt32.toNat_xor, littleEndian_xor]
  rfl

@[simp] theorem length_wordsOfBytes (bytes : Bytes) :
    (wordsOfBytes bytes).length = bytes.length / 4 := by
  simp [wordsOfBytes]

@[simp] theorem bytesOfWords_nil : bytesOfWords [] = [] :=
  rfl

@[simp] theorem bytesOfWords_cons (word : Word) (words : List Word) :
    bytesOfWords (word :: words) = Word.bytes word ++ bytesOfWords words :=
  rfl

@[simp] theorem bytesOfWords_append (first second : List Word) :
    bytesOfWords (first ++ second) = bytesOfWords first ++ bytesOfWords second :=
  List.flatMap_append

@[simp] theorem length_bytesOfWords (words : List Word) :
    (bytesOfWords words).length = 4 * words.length := by
  induction words with
  | nil => rfl
  | cons word words ih => simp [ih]; omega

/-- The bytes of one word stand together. -/
theorem take_drop_bytesOfWords (words : List Word) (place : Nat) (inside : place < words.length) :
    ((bytesOfWords words).drop (4 * place)).take 4 = Word.bytes words[place] := by
  induction words generalizing place with
  | nil => simp at inside
  | cons word words ih =>
      rw [bytesOfWords_cons]
      cases place with
      | zero => exact List.take_left' (Word.length_bytes word)
      | succ place =>
          have later : (Word.bytes word ++ bytesOfWords words).drop (4 * (place + 1)) =
              (bytesOfWords words).drop (4 * place) := by
            rw [Nat.mul_succ, Nat.add_comm, ← List.drop_drop,
              List.drop_left' (Word.length_bytes word)]
          rw [later]
          exact ih place (Nat.lt_of_succ_lt_succ inside)

theorem bytesOfWords_xor {first second : List Word} (same : first.length = second.length) :
    bytesOfWords (List.zipWith (· ^^^ ·) first second) =
      List.zipWith (· ^^^ ·) (bytesOfWords first) (bytesOfWords second) := by
  induction first generalizing second with
  | nil => simp
  | cons word first ih =>
      cases second with
      | nil => simp at same
      | cons other second =>
          have rest := ih (Nat.succ.inj same)
          rw [List.zipWith_cons_cons, bytesOfWords_cons, bytesOfWords_cons, bytesOfWords_cons,
            rest, Word.bytes_xor, List.zipWith_append (by simp)]

theorem wordsOfBytes_bytesOfWords (words : List Word) :
    wordsOfBytes (bytesOfWords words) = words := by
  induction words with
  | nil => exact congrArg (List.map Word.ofBytes) (chunks_of_length_lt (by simp))
  | cons word words ih =>
      have split := chunks_append (by decide : 0 < 4)
        (⟨(Word.bytes word).toArray, by simp⟩ : Vector UInt8 4) (bytesOfWords words)
      simp only [Vector.toList_mk] at split
      rw [bytesOfWords_cons, wordsOfBytes, split, List.map_cons, Word.ofBytes_bytes]
      exact congrArg (word :: ·) ih

theorem bytesOfWords_wordsOfBytes {bytes : Bytes} (aligned : bytes.length % 4 = 0) :
    bytesOfWords (wordsOfBytes bytes) = bytes := by
  have glued : ∀ pieces : List (Vector UInt8 4),
      bytesOfWords (pieces.map Word.ofBytes) = glue pieces := by
    intro pieces
    induction pieces with
    | nil => rfl
    | cons piece pieces ih => simp [Word.bytes_ofBytes, ih]
  rw [wordsOfBytes, glued, glue_chunks (by decide) aligned]

end MemoryHard
