import MemoryHard.Hash.Digester

/-!
# Scripts over numbered digesters

A script makes digesters, copies them and asks them for digests.  Digesters are
numbered from zero in the order in which they appear.
-/

namespace MemoryHard

namespace Digester

/-- The ways to obtain a digester. -/
inductive Origin where
  | name (name : HashName)
  | primitive (primitive : Primitive rowBytes)
  | checked {width : Nat} (primitive : Primitive width)

def ofOrigin : Origin → Except Refusal Digester
  | .name name => .ok (ofName name)
  | .primitive primitive => .ok (ofPrimitive primitive)
  | .checked primitive => ofPrimitive? primitive

end Digester

abbrev DigesterPool := Array Digester

namespace DigesterPool

inductive Step where
  | make (origin : Digester.Origin)
  | copy (number : Nat)
  | digest (number : Nat) (message : Bytes)
  | digestPieces (number : Nat) (pieces : List Bytes)

inductive Answer where
  | added (number : Nat)
  | refused (reason : Refusal)
  | block (block : Block)
  /-- The digest did not fit into a block. -/
  | misfit (number : Nat)
  | unknownDigester (number : Nat)

/-- Keep the digester under the next number. -/
def add (pool : DigesterPool) (digester : Digester) : Answer × DigesterPool :=
  (.added pool.size, pool.push digester)

/-- Ask the digester of the given number, and put back what is left of it. -/
def ask (pool : DigesterPool) (number : Nat) (act : Digester → Option (Block × Digester)) :
    Answer × DigesterPool :=
  if known : number < pool.size then
    match act pool[number] with
    | some (block, digester) => (.block block, pool.set number digester)
    | none => (.misfit number, pool)
  else
    (.unknownDigester number, pool)

def step (pool : DigesterPool) : Step → Answer × DigesterPool
  | .make origin =>
      match Digester.ofOrigin origin with
      | .ok digester => add pool digester
      | .error reason => (.refused reason, pool)
  | .copy number =>
      match pool[number]? with
      | some digester => add pool digester
      | none => (.unknownDigester number, pool)
  | .digest number message => ask pool number (·.digest message)
  | .digestPieces number pieces => ask pool number (·.digestPieces pieces)

/-- The answers of a script, in order. -/
def run (pool : DigesterPool) : List Step → List Answer
  | [] => []
  | first :: rest =>
      let (answer, pool) := step pool first
      answer :: run pool rest

end DigesterPool

end MemoryHard
