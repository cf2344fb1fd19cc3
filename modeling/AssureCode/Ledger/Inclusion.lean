import AssureCode.Js.Bytes
import AssureCode.Ledger.Merkle
import AssureCode.Merkle.AuditPath

/-! # Inclusion proofs

`buildInclusionProof` reads the siblings of a leaf off the levels of the tree, and
`verifyInclusionProof` climbs an arbitrary path from a leaf hash. The siblings are the RFC 6962
audit path, a proof that is built is accepted, and no other path is.
-/

namespace AssureCode.Ledger

open Js Merkle

/-- One step of an inclusion proof: a sibling hash, in hexadecimal, and which side it is on. -/
structure ProofStep where
  hash : Text
  side : Side
  deriving DecidableEq, Repr

structure InclusionProof where
  leafIndex : ℕ
  leafCount : ℕ
  leafHash : Text
  root : Text
  path : List ProofStep
  deriving DecidableEq, Repr

/-- `Buffer | string`; a string is hexadecimal. -/
inductive Digest
  | buffer (b : Buffer)
  | hex (t : Text)
  deriving DecidableEq, Repr

def Digest.toBuffer : Digest → Buffer
  | .buffer b => b
  | .hex t => fromHex t

/-- The sibling that a step names. -/
def ProofStep.sibling (step : ProofStep) : Buffer × Side := (fromHex step.hash, step.side)

/-- The loop of `buildInclusionProof`, from a level and an index on it; the last level has none. -/
def proofPath : List (List Buffer) → ℕ → List ProofStep
  | nodes :: above :: levels, index =>
    let siblingIndex := if index % 2 = 1 then index - 1 else index + 1
    let side := if index % 2 = 1 then .left else .right
    -- Without a sibling the node was promoted, and the level records no step.
    (nodes[siblingIndex]?.map fun node => ⟨toHex node, side⟩).toList ++
      proofPath (above :: levels) (index / 2)
  | _, _ => []

variable (sha256 : Buffer → Buffer)

/-- The index is an integer; any other number is refused like one that is out of range. -/
def buildInclusionProof (leafHashes : List Buffer) (leafIndex : ℤ) :
    Except String InclusionProof :=
  if leafIndex < 0 ∨ leafHashes.length ≤ leafIndex then
    .error s!"leaf index {leafIndex} is outside the tree, which has {leafHashes.length} leaves"
  else
    let levels := buildLevels sha256 leafHashes
    match leafHashes[leafIndex.toNat]?, levels.getLast?.bind List.head? with
    | some leaf, some root =>
      .ok {
        leafIndex := leafIndex.toNat
        leafCount := leafHashes.length
        leafHash := toHex leaf
        root := toHex root
        path := proofPath levels leafIndex.toNat }
    | _, _ => .error "Cannot read properties of undefined (reading 'toString')"

/-- The loop of `verifyInclusionProof`; `none` where it returns `false`. -/
def climbPath : Buffer → List ProofStep → Option Buffer
  | running, [] => some running
  | running, step :: path =>
    let sibling := fromHex step.hash
    if sibling.length ≠ 32 then none
    else
      climbPath (if step.side = .left then hashNode sha256 sibling running
        else hashNode sha256 running sibling) path

def verifyInclusionProof (leafHash : Digest) (path : List ProofStep) (root : Digest) : Bool :=
  let running := leafHash.toBuffer
  let rootBuf := root.toBuffer
  if running.length ≠ 32 ∨ rootBuf.length ≠ 32 then false
  else (climbPath sha256 running path).any (· == rootBuf)

variable {sha256} {leaves : List Buffer} {path : List ProofStep} {leafHash root : Digest}
  {running b : Buffer} {i : ℕ}

/-! ## The code and the audit path -/

variable (sha256) in
theorem computeRoot_of_ne_nil (hne : leaves ≠ []) :
    computeRoot sha256 leaves =
      some (treeHash (hashNode sha256) (emptyRoot sha256) leaves) := by
  have hpos := List.length_pos_iff.mpr hne
  rw [computeRoot, buildLevels, if_neg hpos.ne', getLast?_levelsAbove leaves hpos]
  rfl

theorem map_sibling_neighbour (nodes : List Buffer) (i : ℕ) :
    ((nodes[if i % 2 = 1 then i - 1 else i + 1]?.map fun node =>
        (⟨toHex node, if i % 2 = 1 then .left else .right⟩ : ProofStep)).toList).map
      ProofStep.sibling = (neighbour nodes i).toList := by
  unfold neighbour
  split
  · cases nodes[i - 1]? <;> simp [ProofStep.sibling]
  · cases nodes[i + 1]? <;> simp [ProofStep.sibling]

variable (sha256) in
/-- The steps that the loop records are the audit path. -/
theorem map_sibling_proofPath (current : List Buffer) (h : i < current.length) :
    (proofPath (current :: levelsAbove sha256 current) i).map ProofStep.sibling =
      auditPath (hashNode sha256) (emptyRoot sha256) current i := by
  induction current using levelsAbove.induct sha256 generalizing i with
  | case1 current hlong ih =>
    have hnext : i / 2 < (nextLevel sha256 current).length := by
      rw [nextLevel_eq, length_above]
      omega
    rw [levelsAbove, if_pos hlong, proofPath, List.map_append, map_sibling_neighbour, ih hnext,
      nextLevel_eq, ← auditPath_above current h]
  | case2 current hshort =>
    rw [levelsAbove, if_neg hshort, auditPath_short (by omega)]
    rfl

variable (sha256) in
theorem buildInclusionProof_eq (h : i < leaves.length) :
    ∃ proof, buildInclusionProof sha256 leaves i = .ok proof ∧
      computeRoot sha256 leaves = some (treeHash (hashNode sha256) (emptyRoot sha256) leaves) ∧
      proof.root = toHex (treeHash (hashNode sha256) (emptyRoot sha256) leaves) ∧
      proof.path.map ProofStep.sibling =
        auditPath (hashNode sha256) (emptyRoot sha256) leaves i := by
  have hne : leaves ≠ [] := List.ne_nil_of_length_pos (by omega)
  have hroot := computeRoot_of_ne_nil sha256 hne
  have hpath := map_sibling_proofPath sha256 leaves h
  have hlevels : buildLevels sha256 leaves = leaves :: levelsAbove sha256 leaves :=
    if_neg (by omega)
  have hlast : (buildLevels sha256 leaves).getLast?.bind List.head? = _ := hroot
  have hrange : ¬ ((i : ℤ) < 0 ∨ (leaves.length : ℤ) ≤ i) := by omega
  rw [← hlevels] at hpath
  refine ⟨⟨i, leaves.length, toHex leaves[i], _, _⟩, ?_, hroot, rfl, hpath⟩
  unfold buildInclusionProof
  simp only [if_neg hrange, Int.toNat_natCast, List.getElem?_eq_getElem h, hlast]
  rfl

theorem climbPath_eq_some : climbPath sha256 running path = some b ↔
    (∀ step ∈ path, (fromHex step.hash).length = 32) ∧
      climb (hashNode sha256) running (path.map ProofStep.sibling) = b := by
  induction path generalizing running with
  | nil => simp [climbPath]
  | cons step path ih =>
    have hnext : (if step.side = .left then hashNode sha256 (fromHex step.hash) running
        else hashNode sha256 running (fromHex step.hash)) =
          Function.uncurry (hashNode sha256) (pair running step.sibling) := by
      obtain ⟨hash, _ | _⟩ := step <;> rfl
    rw [climbPath, List.forall_mem_cons]
    simp only [ne_eq, ite_not, hnext]
    split
    · next hlen => simp [ih, hlen, climb]
    · next hlen => simp [hlen]

/-- A path is accepted when every part has the length of a hash and the way up ends at the root. -/
theorem verifyInclusionProof_iff : verifyInclusionProof sha256 leafHash path root = true ↔
    (leafHash.toBuffer.length = 32 ∧ root.toBuffer.length = 32) ∧
      (∀ step ∈ path, (fromHex step.hash).length = 32) ∧
      climb (hashNode sha256) leafHash.toBuffer (path.map ProofStep.sibling) = root.toBuffer := by
  unfold verifyInclusionProof
  by_cases hlen : leafHash.toBuffer.length = 32 ∧ root.toBuffer.length = 32
  · rw [if_neg (by simp [hlen]), Option.any_eq_true]
    simp only [climbPath_eq_some, beq_iff_eq, hlen, true_and, and_true]
    exact ⟨fun ⟨b, ⟨hsteps, hclimb⟩, hb⟩ => ⟨hsteps, hclimb.trans hb⟩,
      fun ⟨hsteps, hclimb⟩ => ⟨_, ⟨hsteps, hclimb⟩, rfl⟩⟩
  · rw [if_pos (by tauto)]
    simp [hlen]

/-! ## Completeness -/

theorem length_hashNode (hsha : ∀ b, (sha256 b).length = 32) (left right : Buffer) :
    (hashNode sha256 left right).length = 32 := hsha _

/-- A proof that is built has the root of the tree and is accepted. -/
theorem inclusion_complete (hsha : ∀ b, (sha256 b).length = 32) (leaves : List Buffer)
    (hleaves : ∀ leaf ∈ leaves, leaf.length = 32) (i : ℕ) (h : i < leaves.length) :
    ∃ proof root, buildInclusionProof sha256 leaves i = .ok proof ∧
      computeRoot sha256 leaves = some root ∧ proof.root = toHex root ∧
      ∀ leafHash rootHash : Digest, leafHash.toBuffer = leaves[i] → rootHash.toBuffer = root →
        verifyInclusionProof sha256 leafHash proof.path rootHash = true := by
  obtain ⟨proof, hbuild, hroot, hproof, hpath⟩ := buildInclusionProof_eq sha256 h
  have hne : leaves ≠ [] := List.ne_nil_of_length_pos (by omega)
  have hnode := length_hashNode hsha
  refine ⟨proof, _, hbuild, hroot, hproof, fun leafHash rootHash hleaf hrootHash => ?_⟩
  rw [verifyInclusionProof_iff, hleaf, hrootHash, hpath, climb_auditPath leaves h]
  refine ⟨⟨hleaves _ (List.getElem_mem h), treeHash_of_forall hnode hne hleaves⟩, ?_, rfl⟩
  intro step hstep
  have hmem : step.sibling ∈ auditPath (hashNode sha256) (emptyRoot sha256) leaves i :=
    hpath ▸ List.mem_map_of_mem hstep
  exact auditPath_of_forall hnode hleaves _ hmem

/-- The thirty-two bytes of a number, the highest first. -/
def digestBytes (n : ℕ) : Buffer :=
  (List.range 32).map fun k => UInt8.ofNat (n >>> (8 * (31 - k)))

/-- The digests of a small tree; the empty message has the default one. -/
def treeDigests : List (Buffer × Buffer) :=
  let a := digestBytes 0x022a6979e6dab7aa5ae4c3e5e45f7e977112a7e63593820dbec1ec738a24f93c
  let b := digestBytes 0x57eb35615d47f34ec714cacdf5fd74608a5e8e102724e80b24b287c0c27b6a31
  let c := digestBytes 0x597fcb31282d34654c200d3418fca5705c648ebf326ec73d8ddef11841f876d8
  let ab := digestBytes 0xb137985ff484fb600db93107c77b0365c80d78f5b429ded0fd97361d077999eb
  [([0x00, 0x61], a), ([0x00, 0x62], b), ([0x00, 0x63], c), (0x01 :: a ++ b, ab),
    (0x01 :: ab ++ c,
      digestBytes 0x36642e73c2540ab121e3a6bf9545b0a24982cd830eb13d3cd19de3ce6c021ec1)]

def treeDigest (b : Buffer) : Buffer :=
  (treeDigests.lookup b).getD <|
    digestBytes 0xe3b0c44298fc1c149afbf4c8996fb92427ae41e4649b934ca495991b7852b855

theorem length_treeDigest (b : Buffer) : (treeDigest b).length = 32 := by
  have hall : ∀ p ∈ treeDigests, p.2.length = 32 := by decide +kernel
  unfold treeDigest
  cases h : treeDigests.lookup b with
  | none => decide +kernel
  | some d =>
    obtain ⟨l, r, heq, -⟩ := List.lookup_eq_some_iff.mp h
    exact hall (b, d) (by rw [heq]; simp)

def threeData : List Buffer := [[0x61], [0x62], [0x63]]

theorem inclusion_complete_second :
    ∃ proof root,
      buildInclusionProof treeDigest (threeData.map (hashLeaf treeDigest)) 1 = .ok proof ∧
      computeRoot treeDigest (threeData.map (hashLeaf treeDigest)) = some root ∧
      proof.root = toHex root ∧ ∀ leafHash rootHash : Digest,
        leafHash.toBuffer = hashLeaf treeDigest [0x62] → rootHash.toBuffer = root →
        verifyInclusionProof treeDigest leafHash proof.path rootHash = true :=
  inclusion_complete length_treeDigest _
    (fun leaf h => by
      obtain ⟨d, -, rfl⟩ := List.mem_map.mp h
      exact length_treeDigest _)
    1 (by decide)

/-! ## Length -/

/--
Every index in range has a proof, and no proof has more than `ceil(log2 n)` steps, for any number
of leaves.
-/
theorem length_path_le (sha256 : Buffer → Buffer) (leaves : List Buffer) (leafIndex : ℤ) :
    (0 ≤ leafIndex ∧ leafIndex < leaves.length ↔
      ∃ proof, buildInclusionProof sha256 leaves leafIndex = .ok proof) ∧
    ∀ proof, buildInclusionProof sha256 leaves leafIndex = .ok proof →
      proof.path.length ≤ Nat.clog 2 leaves.length := by
  by_cases hrange : leafIndex < 0 ∨ (leaves.length : ℤ) ≤ leafIndex
  · have herror : ∀ proof, buildInclusionProof sha256 leaves leafIndex ≠ .ok proof := by
      intro proof
      rw [buildInclusionProof, if_pos hrange]
      rintro ⟨⟩
    refine ⟨⟨fun h => by omega, fun ⟨proof, h⟩ => absurd h (herror proof)⟩, fun proof h => ?_⟩
    exact absurd h (herror proof)
  · obtain ⟨i, rfl⟩ := Int.eq_ofNat_of_zero_le (show 0 ≤ leafIndex by omega)
    have hi : i < leaves.length := by omega
    obtain ⟨built, hbuild, -, -, hpath⟩ := buildInclusionProof_eq sha256 hi
    refine ⟨iff_of_true (by omega) ⟨built, hbuild⟩, fun proof h => ?_⟩
    obtain rfl : built = proof := Except.ok.inj (hbuild.symm.trans h)
    calc built.path.length = (built.path.map ProofStep.sibling).length := (List.length_map _).symm
      _ = (auditPath (hashNode sha256) (emptyRoot sha256) leaves i).length := by rw [hpath]
      _ ≤ Nat.clog 2 leaves.length := length_auditPath_le leaves hi

/-! ## Soundness -/

/-- The message that is hashed for a pair. -/
def nodeMessage (p : Buffer × Buffer) : Buffer := 0x01 :: p.1 ++ p.2

variable (sha256) in
/-- The messages that are hashed for the tree over the data. -/
def treeMessages (data : List Buffer) : List Buffer :=
  data.map (0x00 :: ·) ++
    (joins (hashNode sha256) (emptyRoot sha256) (data.map (hashLeaf sha256))).map nodeMessage

variable (sha256) in
/-- The messages that are hashed for a datum and a path. -/
def pathMessages (d : Buffer) (path : List ProofStep) : List Buffer :=
  (0x00 :: d) ::
    (joinsAlong (hashNode sha256) (hashLeaf sha256 d) (path.map ProofStep.sibling)).map nodeMessage

/-- Leaves that come from these messages. -/
def leavesOf (sha256 : Buffer → Buffer) (messages : Set Buffer) : Set Buffer :=
  {a | ∃ d, 0x00 :: d ∈ messages ∧ hashLeaf sha256 d = a}

/-- Pairs whose messages are among these and can be cut. -/
def pairsOf (messages : Set Buffer) : Set (Buffer × Buffer) :=
  {p | nodeMessage p ∈ messages ∧ p.1.length = 32}

variable {messages : Set Buffer} {data data' : List Buffer} {d : Buffer}

/-- The two prefixes keep leaves and nodes apart, and the length cuts the message of a node. -/
theorem separated (hfree : Set.InjOn sha256 messages) :
    Separated (hashNode sha256) (leavesOf sha256 messages) (pairsOf messages) where
  injOn := by
    rintro ⟨l, r⟩ ⟨hp, hl⟩ ⟨l', r'⟩ ⟨hp', hl'⟩ heq
    have hmessage := List.cons.inj (hfree hp hp' heq) |>.2
    obtain ⟨rfl, rfl⟩ := List.append_inj hmessage (hl.trans hl'.symm)
    rfl
  apart := by
    rintro _ ⟨d, hd, rfl⟩ p ⟨hp, -⟩ heq
    have hmessage := List.cons.inj (hfree hd hp heq) |>.1
    exact absurd hmessage (by decide)

theorem leaf_mem_treeMessages (hd : d ∈ data) : 0x00 :: d ∈ treeMessages sha256 data :=
  List.mem_append_left _ (List.mem_map_of_mem hd)

theorem mem_leavesOf (hsub : ∀ m ∈ treeMessages sha256 data, m ∈ messages) :
    ∀ x ∈ data.map (hashLeaf sha256), x ∈ leavesOf sha256 messages := by
  intro x hx
  obtain ⟨d, hd, rfl⟩ := List.mem_map.mp hx
  exact ⟨d, hsub _ (leaf_mem_treeMessages hd), rfl⟩

theorem mem_pairsOf (hsha : ∀ b, (sha256 b).length = 32)
    (hsub : ∀ m ∈ treeMessages sha256 data, m ∈ messages) :
    ∀ p ∈ joins (hashNode sha256) (emptyRoot sha256) (data.map (hashLeaf sha256)),
      p ∈ pairsOf messages := by
  intro p hp
  refine ⟨hsub _ (List.mem_append_right _ (List.mem_map_of_mem hp)), ?_⟩
  refine (joins_of_forall (P := (·.length = 32)) (length_hashNode hsha) (fun x hx => ?_) p hp).1
  obtain ⟨d, -, rfl⟩ := List.mem_map.mp hx
  exact hsha _

/-- The leaf hash tells the data apart. -/
theorem hashLeaf_injOn (hfree : Set.InjOn sha256 messages) (hd : 0x00 :: d ∈ messages)
    (hd' : 0x00 :: b ∈ messages) (h : hashLeaf sha256 d = hashLeaf sha256 b) : d = b :=
  List.cons.inj (hfree hd hd' h) |>.2

theorem map_hashLeaf_injOn (hfree : Set.InjOn sha256 messages)
    (hsub : ∀ d ∈ data, 0x00 :: d ∈ messages) (hsub' : ∀ d ∈ data', 0x00 :: d ∈ messages)
    (h : data.map (hashLeaf sha256) = data'.map (hashLeaf sha256)) : data = data' := by
  induction data generalizing data' with
  | nil => exact (List.map_eq_nil_iff.mp h.symm).symm
  | cons d data ih =>
    obtain ⟨d', data', rfl, hd, hrest⟩ := List.map_eq_cons_iff.mp h.symm
    obtain ⟨hmem, hsub⟩ := List.forall_mem_cons.mp hsub
    obtain ⟨hmem', hsub'⟩ := List.forall_mem_cons.mp hsub'
    rw [hashLeaf_injOn hfree hmem hmem' hd.symm, ih hsub hsub' hrest.symm]

/-- A path that is accepted for a datum is the one that is built for an index of the datum. -/
theorem inclusion_sound (hsha : ∀ b, (sha256 b).length = 32) (data : List Buffer)
    (hne : data ≠ []) (d : Buffer) (path : List ProofStep) (leafHash root : Digest)
    (hfree : Set.InjOn sha256
      {m | m ∈ treeMessages sha256 data ∨ m ∈ pathMessages sha256 d path})
    (hleaf : leafHash.toBuffer = hashLeaf sha256 d)
    (hroot : computeRoot sha256 (data.map (hashLeaf sha256)) = some root.toBuffer)
    (h : verifyInclusionProof sha256 leafHash path root = true) :
    ∃ i : ℕ, data[i]? = some d ∧ ∃ proof,
      buildInclusionProof sha256 (data.map (hashLeaf sha256)) i = .ok proof ∧
        path.map ProofStep.sibling = proof.path.map ProofStep.sibling := by
  have hne' : data.map (hashLeaf sha256) ≠ [] := by simpa using hne
  obtain ⟨-, hsteps, hclimb⟩ := verifyInclusionProof_iff.mp h
  rw [computeRoot_of_ne_nil _ hne', Option.some.injEq] at hroot
  rw [hleaf, ← hroot] at hclimb
  have hpairs : ∀ p ∈ joinsAlong (hashNode sha256) (hashLeaf sha256 d)
      (path.map ProofStep.sibling), p ∈ pairsOf
        {m | m ∈ treeMessages sha256 data ∨ m ∈ pathMessages sha256 d path} := by
    intro p hp
    refine ⟨.inr (List.mem_cons_of_mem _ (List.mem_map_of_mem hp)), ?_⟩
    refine (joinsAlong_of_forall (P := (·.length = 32)) (length_hashNode hsha) (hsha _)
      (fun b hb => ?_) p hp).1
    obtain ⟨step, hstep, rfl⟩ := List.mem_map.mp hb
    exact hsteps step hstep
  obtain ⟨i, hi, hpath⟩ := eq_auditPath_of_climb (separated hfree)
    ⟨d, .inr List.mem_cons_self, rfl⟩ hpairs hne' (mem_leavesOf fun m hm => .inl hm)
    (mem_pairsOf hsha fun m hm => .inl hm) hclimb
  have hlt := (List.getElem?_eq_some_iff.mp hi).1
  obtain ⟨proof, hbuild, -, -, hproof⟩ := buildInclusionProof_eq sha256 hlt
  rw [List.getElem?_map, Option.map_eq_some_iff] at hi
  obtain ⟨d', hd', heq⟩ := hi
  obtain rfl : d' = d := hashLeaf_injOn hfree
    (.inl (leaf_mem_treeMessages (List.mem_of_getElem? hd'))) (.inr List.mem_cons_self) heq
  exact ⟨i, hd', proof, hbuild, hpath.trans hproof.symm⟩

/-- The path of the second of three leaves, with the digits of one hash in upper case. -/
def secondPath : List ProofStep :=
  [⟨units "022A6979E6DAB7AA5AE4C3E5E45F7E977112A7E63593820DBEC1EC738A24F93C", .left⟩,
    ⟨units "597fcb31282d34654c200d3418fca5705c648ebf326ec73d8ddef11841f876d8", .right⟩]

def secondRoot : Digest :=
  .hex (units "36642e73c2540ab121e3a6bf9545b0a24982cd830eb13d3cd19de3ce6c021ec1")

/-- The digests of the messages are told apart one by one. -/
theorem injOn_treeDigest {messages messages' : List Buffer}
    (h : ∀ m ∈ messages ++ messages', ∀ m' ∈ messages ++ messages',
      treeDigest m = treeDigest m' → m = m') :
    Set.InjOn treeDigest {m | m ∈ messages ∨ m ∈ messages'} :=
  fun m hm m' hm' heq => h m (List.mem_append.mpr hm) m' (List.mem_append.mpr hm') heq

theorem inclusion_sound_second :
    ∃ i : ℕ, threeData[i]? = some [0x62] ∧ ∃ proof,
      buildInclusionProof treeDigest (threeData.map (hashLeaf treeDigest)) i = .ok proof ∧
        secondPath.map ProofStep.sibling = proof.path.map ProofStep.sibling :=
  inclusion_sound length_treeDigest threeData (by decide) [0x62] secondPath
    (.buffer (hashLeaf treeDigest [0x62])) secondRoot
    (injOn_treeDigest (by decide +kernel)) rfl (by decide +kernel) (by decide +kernel)

/-! ## The root binds the leaves -/

theorem data_eq_of_treeHash_eq (hsha : ∀ b, (sha256 b).length = 32) (hx : data ≠ [])
    (hy : data' ≠ []) (hfree : Set.InjOn sha256 messages)
    (hsub : ∀ m ∈ treeMessages sha256 data, m ∈ messages)
    (hsub' : ∀ m ∈ treeMessages sha256 data', m ∈ messages)
    (h : treeHash (hashNode sha256) (emptyRoot sha256) (data.map (hashLeaf sha256)) =
      treeHash (hashNode sha256) (emptyRoot sha256) (data'.map (hashLeaf sha256))) :
    data = data' := by
  have hx' : data.map (hashLeaf sha256) ≠ [] := by simpa using hx
  have hy' : data'.map (hashLeaf sha256) ≠ [] := by simpa using hy
  have hleaves := treeHash_inj (separated hfree) hx' hy' (mem_leavesOf hsub) (mem_leavesOf hsub')
    (mem_pairsOf hsha hsub) (mem_pairsOf hsha hsub') h
  exact map_hashLeaf_injOn hfree (fun d hd => hsub _ (leaf_mem_treeMessages hd))
    (fun d hd => hsub' _ (leaf_mem_treeMessages hd)) hleaves

/-- Two lists of data with one root are one list. -/
theorem computeRoot_inj (hsha : ∀ b, (sha256 b).length = 32) (xs ys : List Buffer)
    (hx : xs ≠ []) (hy : ys ≠ [])
    (hfree : Set.InjOn sha256 {m | m ∈ treeMessages sha256 xs ∨ m ∈ treeMessages sha256 ys})
    (h : computeRoot sha256 (xs.map (hashLeaf sha256)) =
      computeRoot sha256 (ys.map (hashLeaf sha256))) : xs = ys := by
  rw [computeRoot_eq_treeHash, computeRoot_eq_treeHash, Option.some.injEq] at h
  exact data_eq_of_treeHash_eq hsha hx hy hfree (fun m hm => .inl hm) (fun m hm => .inr hm) h

theorem computeRoot_inj_three : threeData = threeData :=
  computeRoot_inj length_treeDigest threeData threeData (by decide) (by decide)
    (injOn_treeDigest (by decide +kernel)) rfl

end AssureCode.Ledger
