import TwelveC.Crypto

/-!
# Merkle trees over block hashes

Levels are paired from the left; an odd last node is paired with itself. The
empty list of leaves has the hash of the empty string as its root.
-/

namespace TwelveC

structure MerkleTree where
  levels : List (List Bytes)
  rootHash : Bytes
  deriving DecidableEq, Repr

namespace Merkle

variable (C : Primitives)

def hashBlock (block : Bytes) : Bytes := C.sha256 block

/-- One round of the loop over `index += 2`. -/
def nextLevel : List Bytes → List Bytes
  | [] => []
  | [a] => [C.sha256 (a ++ a)]
  | a :: b :: rest => C.sha256 (a ++ b) :: nextLevel rest

/-- The levels pushed from `currentLevel` on. Each round at least halves the level, rounding up, so
the level's own length is fuel enough. -/
def climb : Nat → List Bytes → List (List Bytes)
  | 0, currentLevel => [currentLevel]
  | fuel + 1, currentLevel =>
    if 1 < currentLevel.length then currentLevel :: climb fuel (nextLevel C currentLevel)
    else [currentLevel]

/-- The tree over non-empty leaf hashes. -/
def growTree (leaves : List Bytes) : MerkleTree :=
  let levels := climb C leaves.length leaves
  { levels, rootHash := (levels.getLastD []).headD [] }

def emptyTree : MerkleTree := { levels := [[C.sha256 []]], rootHash := C.sha256 [] }

def buildMerkleTree (blocks : List Bytes) : MerkleTree :=
  if blocks.isEmpty then emptyTree C else growTree C (blocks.map (hashBlock C))

def buildMerkleTreeFromLeafHashes (leafHashes : List Bytes) : MerkleTree :=
  if leafHashes.isEmpty then emptyTree C else growTree C leafHashes

def verifyMerkleRoot (blocks : List Bytes) (expectedRoot : Bytes) : Bool :=
  (buildMerkleTree C blocks).rootHash == expectedRoot

def verifyMerkleRootFromLeafHashes (leafHashes : List Bytes) (expectedRoot : Bytes) : Bool :=
  (buildMerkleTreeFromLeafHashes C leafHashes).rootHash == expectedRoot

variable {C}

/-- The two builders agree on the images of the blocks. -/
theorem fromLeafHashes_map (blocks : List Bytes) :
    buildMerkleTreeFromLeafHashes C (blocks.map (hashBlock C)) = buildMerkleTree C blocks := by
  simp [buildMerkleTreeFromLeafHashes, buildMerkleTree]

theorem verifyMerkleRoot_self (blocks : List Bytes) :
    verifyMerkleRoot C blocks (buildMerkleTree C blocks).rootHash = true := by
  simp [verifyMerkleRoot]

theorem verify_fromLeafHashes_map (blocks : List Bytes) (expectedRoot : Bytes) :
    verifyMerkleRootFromLeafHashes C (blocks.map (hashBlock C)) expectedRoot =
      verifyMerkleRoot C blocks expectedRoot := by
  rw [verifyMerkleRootFromLeafHashes, verifyMerkleRoot, fromLeafHashes_map]

end Merkle
end TwelveC
