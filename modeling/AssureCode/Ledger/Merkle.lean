import AssureCode.Merkle.TreeHash

/-! # The Merkle tree over a ledger

`computeRoot` reduces the leaf hashes level by level; the root is the RFC 6962 tree hash, which
cuts the list at powers of two.
-/

namespace AssureCode.Ledger

abbrev Buffer := List UInt8

variable (sha256 : Buffer → Buffer)

/-- RFC 6962 leaf hash; a string is hashed as its UTF-8 bytes. -/
def hashLeaf (data : Buffer) : Buffer := sha256 (0x00 :: data)

/-- RFC 6962 interior node hash. -/
def hashNode (left right : Buffer) : Buffer := sha256 (0x01 :: left ++ right)

/-- The root of an empty tree. -/
def emptyRoot : Buffer := sha256 []

/-- The body of the loop in `buildLevels`. -/
def nextLevel : List Buffer → List Buffer
  | left :: right :: nodes => hashNode sha256 left right :: nextLevel nodes
  | [node] => [node]
  | [] => []

theorem nextLevel_eq : ∀ nodes : List Buffer,
    nextLevel sha256 nodes = Merkle.above (hashNode sha256) nodes
  | [] => rfl
  | [_] => rfl
  | left :: right :: nodes => by rw [nextLevel, Merkle.above, nextLevel_eq nodes]

/-- The levels that the loop pushes above `current`. -/
def levelsAbove (current : List Buffer) : List (List Buffer) :=
  if 1 < current.length then nextLevel sha256 current :: levelsAbove (nextLevel sha256 current)
  else []
termination_by current.length
decreasing_by
  rw [nextLevel_eq, Merkle.length_above]
  omega

/-- Every level of the tree, bottom-up. -/
def buildLevels (leaves : List Buffer) : List (List Buffer) :=
  if leaves.length = 0 then [[emptyRoot sha256]] else leaves :: levelsAbove sha256 leaves

/-- `levels[levels.length - 1][0]` -/
def computeRoot (leafHashes : List Buffer) : Option Buffer :=
  (buildLevels sha256 leafHashes).getLast?.bind List.head?

/-! ## The root is the tree hash -/

variable {sha256}

/-- The last level has one node, the tree hash of the level that the loop starts from. -/
theorem getLast?_levelsAbove (current : List Buffer) (h : 0 < current.length) :
    (current :: levelsAbove sha256 current).getLast? =
      some [Merkle.treeHash (hashNode sha256) (emptyRoot sha256) current] := by
  induction current using levelsAbove.induct sha256 with
  | case1 current hlong ih =>
    have hnext : 0 < (nextLevel sha256 current).length := by
      rw [nextLevel_eq, Merkle.length_above]
      omega
    rw [levelsAbove, if_pos hlong, List.getLast?_cons_cons, ih hnext, nextLevel_eq,
      Merkle.treeHash_above]
  | case2 current hshort =>
    obtain ⟨node, rfl⟩ := List.length_eq_one_iff.mp (show current.length = 1 by omega)
    rw [levelsAbove, if_neg hshort, Merkle.treeHash_singleton]
    rfl

/-- The iterative root is the RFC 6962 Merkle Tree Hash, also over no leaves at all. -/
theorem computeRoot_eq_treeHash (sha256 : Buffer → Buffer) (leafHashes : List Buffer) :
    computeRoot sha256 leafHashes =
      some (Merkle.treeHash (hashNode sha256) (emptyRoot sha256) leafHashes) := by
  unfold computeRoot buildLevels
  split
  · next h =>
    rw [List.length_eq_zero_iff.mp h, Merkle.treeHash_nil]
    rfl
  · next h =>
    rw [getLast?_levelsAbove leafHashes (Nat.pos_of_ne_zero h)]
    rfl

end AssureCode.Ledger
