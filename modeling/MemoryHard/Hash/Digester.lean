import MemoryHard.Refusal
import MemoryHard.Hash.Name

/-!
# Reusable digesters

A primitive collects a message piece by piece.  A digester owns a primitive and
leaves it empty after every digest, so that a digest depends only on the pieces of
its own message.  That the digests are 64 bytes wide is either known beforehand or
found out once, when the digester takes the primitive over.
-/

namespace MemoryHard

/-- A hash computation under way, with digests of `width` bytes. -/
structure Primitive (width : Nat) where
  hash : Bytes → Vector UInt8 width
  pending : Bytes := []

namespace Primitive

variable {width : Nat}

def feed (primitive : Primitive width) (piece : Bytes) : Primitive width :=
  { primitive with pending := primitive.pending ++ piece }

def reset (primitive : Primitive width) : Primitive width :=
  { primitive with pending := [] }

/-- The digest of the collected message, and the primitive ready for the next one. -/
def finish (primitive : Primitive width) : Vector UInt8 width × Primitive width :=
  (primitive.hash primitive.pending, primitive.reset)

/-- The digest for a place of `room` bytes, which it has to fill exactly. -/
def finishInto (primitive : Primitive width) (room : Nat) :
    Option (Vector UInt8 room × Primitive width) :=
  if fits : width = room then
    let (digest, primitive) := primitive.finish
    some (digest.cast fits, primitive)
  else
    none

end Primitive

inductive Digester where
  | fixed (primitive : Primitive rowBytes)
  /-- The width was compared when the primitive was taken over. -/
  | checked {width : Nat} (primitive : Primitive width)

namespace Digester

def ofName (name : HashName) : Digester :=
  .fixed { hash := name.hash }

/-- Whatever was fed to the primitive before is dropped. -/
def ofPrimitive (primitive : Primitive rowBytes) : Digester :=
  .fixed primitive.reset

/-- Take over a primitive whose width is known only now. -/
def ofPrimitive? {width : Nat} (primitive : Primitive width) : Except Refusal Digester :=
  if width = rowBytes then
    .ok (.checked primitive.reset)
  else
    .error (.hashWidth width)

/-- The digest of the pieces written one after the other, if it fits into a block. -/
def digestPieces (digester : Digester) (pieces : List Bytes) : Option (Block × Digester) :=
  match digester with
  | fixed primitive =>
      let (block, primitive) := (pieces.foldl Primitive.feed primitive).finish
      some (block, fixed primitive)
  | checked primitive => do
      let (block, primitive) ← (pieces.foldl Primitive.feed primitive).finishInto rowBytes
      return (block, checked primitive)

def digest (digester : Digester) (message : Bytes) : Option (Block × Digester) :=
  digester.digestPieces [message]

/-- The function that one use of the digester computes.  Zeros stand for a digest that
does not fit. -/
def function (digester : Digester) : HashFunction :=
  fun message => (digester.digest message).elim Block.zero Prod.fst

end Digester

end MemoryHard
