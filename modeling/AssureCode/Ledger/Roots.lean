import AssureCode.Ledger.Inclusion
import AssureCode.Ledger.Tampering
import AssureCode.Settlement.Model

/-! # Sealing and signing roots

`computeAndStoreRoot`, the route `root/sign` and the signing tool, beside appends to the ledger.
Each of them reads, computes or calls out, and writes later; a statement may throw with or without
having taken effect, and a process may die between any two of them. A call has a number of its own.
-/

namespace AssureCode.Ledger.Roots

open Js
open Settlement (Outcome)

/-- A row of `merkle_roots`. -/
structure MerkleRoot where
  rootHash : Text
  leafCount : ℕ
  maxLedgerId : Option ℕ
  signature : Option Buffer := none
  publicKey : Option Buffer := none
  signedAt : Option ℕ := none
  signatureAlg : Option Text := none
  deriving DecidableEq

/-- What the signer is asked to sign. -/
structure RootMessage where
  contractId : Text
  rootHash : Text
  leafCount : ℕ
  deriving DecidableEq

structure RootSignature where
  algorithm : Text
  signature : Buffer
  publicKey : Buffer
  deriving DecidableEq

/-- Who has read a root in order to sign it. -/
inductive Caller | route | tool
  deriving DecidableEq

/-- Each constructor names the statement or call that comes next. -/
inductive Task
  | upsert (contractId root : Text) (leafCount : ℕ) (maxLedgerId : Option ℕ)
  | sign (m : RootMessage) (caller : Caller)
  | storeRootSignature (m : RootMessage) (signed : RootSignature) (caller : Caller)
  | getRoot (contractId : Text) (signed : RootSignature)
  deriving DecidableEq

inductive Reply
  | signed (contractId : Text) (alreadySigned : Bool) (algorithm : Option Text)
    (signedAt : Option ℕ)
  | error (statusCode : ℕ) (error : Text)
  | exit (code : ℕ) (message : Text)
  deriving DecidableEq

/-- A call that was sealing, that threw or whose process died has ended without a reply. -/
inductive Actor
  | idle
  | working (task : Task)
  | ended (reply : Option Reply)
  deriving DecidableEq

/-- `signatures` is history; nothing reads it. -/
structure State where
  chains : Text → List LedgerRow := fun _ => []
  roots : Text → Option MerkleRoot := fun _ => none
  /-- What the signer has produced, and over what. -/
  signatures : List (RootMessage × RootSignature) := []
  actors : ℕ → Actor := fun _ => .idle

def State.setActor (s : State) (i : ℕ) (a : Actor) : State :=
  { s with actors := Function.update s.actors i a }

def State.setRoot (s : State) (contractId : Text) (row : Option MerkleRoot) : State :=
  { s with roots := Function.update s.roots contractId row }

/-! ## Sealing -/

variable (sha256 : Buffer → Buffer)

def leafBytes (row : LedgerRow) : Except NotCanonicalizableError Buffer := do
  let material ← canonicalize <| .object [
    (units "ledgerId", .number (.ofRat row.ledgerId)),
    (units "contractId", .string row.contractId),
    (units "actionType", .string row.actionType),
    (units "payload", Ledger.data row.payload.value),
    (units "previousHash", .string row.previousHash),
    (units "currentHash", .string row.currentHash)]
  return hashLeaf sha256 (utf8 material)

/-- Between `getChain` and the upsert; `none` where it throws. -/
def computeAndStoreRoot (contractId : Text) (rows : List LedgerRow) : Option Task :=
  match rows.mapM (leafBytes sha256) with
  | .error _ => none
  | .ok leaves =>
    (computeRoot sha256 leaves).map fun root =>
      .upsert contractId (toHex root) leaves.length (rows.getLast?.map (·.ledgerId))

/-- The row after the upsert, which clears the columns of the signature. -/
def sealed (root : Text) (leafCount : ℕ) (maxLedgerId : Option ℕ) : MerkleRoot where
  rootHash := root
  leafCount := leafCount
  maxLedgerId := maxLedgerId

/-! ## Signing -/

def noRoot (contractId : Text) : Text :=
  units "No Merkle root recorded for " ++ contractId ++ units ". Compute one first. " ++
    units "Refusing to sign a root that does not exist."

def noRootForTool (contractId : Text) : Text :=
  units "No Merkle root recorded for " ++ contractId ++ units ". Compute one first " ++
    units "(LedgerClient.computeAndStoreRoot). Refusing to sign a root that does not exist."

/-- The route up to the call of the signer. -/
def requestSignature (isServiceCaller : Bool) (contractId : Text) (root : Option MerkleRoot) :
    Actor :=
  if isServiceCaller = false then .ended (some (.error 403 (units "Service callers only")))
  else
    match root with
    | none => .ended (some (.error 409 (noRoot contractId)))
    | some root =>
      if root.signature.any (· ≠ []) then
        .ended (some (.signed contractId true root.signatureAlg root.signedAt))
      else .working (.sign ⟨contractId, root.rootHash, root.leafCount⟩ .route)

/-- The tool up to the signature. -/
def runTool (contractId : Text) : Option MerkleRoot → Actor
  | none => .ended (some (.exit 1 (noRootForTool contractId)))
  | some root => .working (.sign ⟨contractId, root.rootHash, root.leafCount⟩ .tool)

/-- What the caller does when the signer has failed; an unreachable one has no status. -/
def signerFailed (caller : Caller) (status : Option ℕ) (detail : Text) : Actor :=
  match caller, status with
  | .tool, _ => .ended none
  | .route, none =>
    .ended (some (.error 502 (units "Root signing unavailable: signer unreachable")))
  | .route, some status =>
    .ended (some (.error (if status = 503 then 503 else 502)
      (units "Root signing unavailable: signer returned " ++ digitsOf status ++ units ". " ++
        detail)))

/-- The guard of the `UPDATE`. -/
def matches? (m : RootMessage) (root : MerkleRoot) : Bool :=
  root.rootHash = m.rootHash ∧ root.leafCount = m.leafCount

/-- `UPDATE merkle_roots SET … WHERE contract_id = … AND root_hash = … AND leaf_count = …` -/
def storeSignature (m : RootMessage) (signed : RootSignature) (now : ℕ)
    (root : Option MerkleRoot) : Option MerkleRoot :=
  root.map fun root =>
    if matches? m root then
      { root with
        signature := some signed.signature
        publicKey := some signed.publicKey
        signatureAlg := some signed.algorithm
        signedAt := some now }
    else root

/-- What the caller does with `rowCount = 1`, or without. -/
def stored (m : RootMessage) (signed : RootSignature) (updated : Bool) : Caller → Actor
  | .route =>
    if updated then .working (.getRoot m.contractId signed)
    else .ended (some (.error 409 (units "The root changed while it was being signed; nothing " ++
      units "was written. Recompute and retry.")))
  | .tool =>
    if updated then .ended (some (.exit 0 (units "Signed " ++ m.contractId)))
    else .ended (some (.exit 1
      (units "The root changed while it was being signed; nothing was written. Re-run.")))

/-- The statement of a task, when it succeeds. -/
def perform (s : State) (now : ℕ) : Task → State × Actor
  | .upsert contractId root leafCount maxLedgerId =>
    (s.setRoot contractId (some (sealed root leafCount maxLedgerId)), .ended none)
  | .storeRootSignature m signed caller =>
    let root := s.roots m.contractId
    (s.setRoot m.contractId (storeSignature m signed now root),
      stored m signed (root.any (matches? m)) caller)
  | .getRoot contractId signed =>
    (s, .ended (some (.signed contractId false (some signed.algorithm)
      ((s.roots contractId).bind (·.signedAt)))))
  -- The signer has steps of its own.
  | .sign m caller => (s, .working (.sign m caller))

/-! ## The system -/

inductive Action
  /-- An entry of its contract becomes visible. -/
  | append (row : LedgerRow)
  | computeAndStoreRoot (i : ℕ) (contractId : Text)
  | requestSignature (i : ℕ) (isServiceCaller : Bool) (contractId : Text)
  | runTool (i : ℕ) (contractId : Text)
  /-- The signer answers with a signature over what it was asked to sign. -/
  | answer (i : ℕ) (signed : RootSignature)
  | refuse (i : ℕ) (status : Option ℕ) (detail : Text)
  | advance (i : ℕ) (o : Outcome) (now : ℕ)
  | crash (i : ℕ)

def advance (s : State) (i : ℕ) (o : Outcome) (now : ℕ) : Option State :=
  match s.actors i, o with
  | .working (.sign ..), _ => none
  | .working task, .ok => some ((perform s now task).1.setActor i (perform s now task).2)
  | .working _, .failed => some (s.setActor i (.ended none))
  | .working task, .lost => some ((perform s now task).1.setActor i (.ended none))
  | _, _ => none

def step (s : State) : Action → Option State
  | .append row =>
    let chain := s.chains row.contractId
    if chain.all (·.ledgerId ≠ row.ledgerId) then
      some { s with chains := Function.update s.chains row.contractId <|
        chain.orderedInsert (fun r q => r.ledgerId ≤ q.ledgerId) row }
    else none
  | .computeAndStoreRoot i contractId =>
    if s.actors i = .idle then
      some (s.setActor i ((computeAndStoreRoot sha256 contractId (s.chains contractId)).elim
        (.ended none) .working))
    else none
  | .requestSignature i isServiceCaller contractId =>
    if s.actors i = .idle then
      some (s.setActor i (requestSignature isServiceCaller contractId (s.roots contractId)))
    else none
  | .runTool i contractId =>
    if s.actors i = .idle then some (s.setActor i (runTool contractId (s.roots contractId)))
    else none
  | .answer i signed =>
    match s.actors i with
    | .working (.sign m caller) =>
      some (State.setActor { s with signatures := (m, signed) :: s.signatures } i
        (.working (.storeRootSignature m signed caller)))
    | _ => none
  | .refuse i status detail =>
    match s.actors i with
    | .working (.sign _ caller) => some (s.setActor i (signerFailed caller status detail))
    | _ => none
  | .advance i o now => advance s i o now
  | .crash i => some (s.setActor i (.ended none))

/-- No root is sealed, no root is signed, and no call has begun. -/
def Initial (s : State) : Prop :=
  (∀ c, s.roots c = none) ∧ s.signatures = [] ∧ ∀ i, s.actors i = .idle

def system : Machine State Action where
  init := Initial
  step := step sha256

/-! ## What one step can do -/

variable {sha256} {s t : State} {a : Action} {as : List Action} {i : ℕ} {b : Actor} {τ : Task}
  {now : ℕ} {m : RootMessage} {signed : RootSignature} {c : Text} {root : MerkleRoot}

/-- The transition relation. -/
inductive Step (sha256 : Buffer → Buffer) (s : State) : Action → State → Prop
  | append {row : LedgerRow} : Step sha256 s (.append row)
      { s with chains := Function.update s.chains row.contractId <|
        (s.chains row.contractId).orderedInsert (fun r q => r.ledgerId ≤ q.ledgerId) row }
  | computeAndStoreRoot {i : ℕ} {c : Text} : s.actors i = .idle →
      Step sha256 s (.computeAndStoreRoot i c) (s.setActor i
        ((computeAndStoreRoot sha256 c (s.chains c)).elim (.ended none) .working))
  | requestSignature {i : ℕ} {isServiceCaller : Bool} {c : Text} : s.actors i = .idle →
      Step sha256 s (.requestSignature i isServiceCaller c)
        (s.setActor i (requestSignature isServiceCaller c (s.roots c)))
  | runTool {i : ℕ} {c : Text} : s.actors i = .idle →
      Step sha256 s (.runTool i c) (s.setActor i (runTool c (s.roots c)))
  | answer {i : ℕ} {m : RootMessage} {caller : Caller} {signed : RootSignature} :
      s.actors i = .working (.sign m caller) →
      Step sha256 s (.answer i signed) (State.setActor
        { s with signatures := (m, signed) :: s.signatures } i
        (.working (.storeRootSignature m signed caller)))
  | refuse {i : ℕ} {m : RootMessage} {caller : Caller} {status : Option ℕ} {detail : Text} :
      s.actors i = .working (.sign m caller) →
      Step sha256 s (.refuse i status detail) (s.setActor i (signerFailed caller status detail))
  | take {i : ℕ} {o : Outcome} {now : ℕ} {τ : Task} : s.actors i = .working τ →
      (∀ m caller, τ ≠ .sign m caller) → o ≠ .failed →
      Step sha256 s (.advance i o now) ((perform s now τ).1.setActor i
        (if o = .ok then (perform s now τ).2 else .ended none))
  | fail {i now : ℕ} {τ : Task} : s.actors i = .working τ →
      Step sha256 s (.advance i .failed now) (s.setActor i (.ended none))
  | crash {i : ℕ} : Step sha256 s (.crash i) (s.setActor i (.ended none))

theorem step_cases (h : step sha256 s a = some t) : Step sha256 s a t := by
  cases a with
  | append row =>
    obtain ⟨-, ht⟩ := Option.ite_none_right_eq_some.mp h
    cases ht
    exact .append
  | computeAndStoreRoot i c =>
    obtain ⟨hi, ht⟩ := Option.ite_none_right_eq_some.mp h
    cases ht
    exact .computeAndStoreRoot hi
  | requestSignature i isServiceCaller c =>
    obtain ⟨hi, ht⟩ := Option.ite_none_right_eq_some.mp h
    cases ht
    exact .requestSignature hi
  | runTool i c =>
    obtain ⟨hi, ht⟩ := Option.ite_none_right_eq_some.mp h
    cases ht
    exact .runTool hi
  | answer i signed =>
    simp only [step] at h
    split at h
    · next hi => cases h; exact .answer hi
    · cases h
  | refuse i status detail =>
    simp only [step] at h
    split at h
    · next hi => cases h; exact .refuse hi
    · cases h
  | advance i o now =>
    simp only [step, advance] at h
    split at h
    · cases h
    · next hi hsign => cases h; exact .take hsign hi (by decide)
    · next hi _ => cases h; exact .fail ‹_›
    · next hsign hi => cases h; exact .take hi hsign (by decide)
    · cases h
  | crash i =>
    cases h
    exact .crash

@[simp] theorem setActor_chains : (s.setActor i b).chains = s.chains := rfl

@[simp] theorem setActor_roots : (s.setActor i b).roots = s.roots := rfl

@[simp] theorem setActor_actors : (s.setActor i b).actors = Function.update s.actors i b := rfl

@[simp] theorem setRoot_roots {row : Option MerkleRoot} :
    (s.setRoot c row).roots = Function.update s.roots c row := rfl

@[simp] theorem setRoot_chains {row : Option MerkleRoot} : (s.setRoot c row).chains = s.chains :=
  rfl

@[simp] theorem setRoot_actors {row : Option MerkleRoot} : (s.setRoot c row).actors = s.actors :=
  rfl

@[simp] theorem perform_chains : (perform s now τ).1.chains = s.chains := by cases τ <;> rfl

@[simp] theorem perform_signatures : (perform s now τ).1.signatures = s.signatures := by
  cases τ <;> rfl

@[simp] theorem perform_actors : (perform s now τ).1.actors = s.actors := by cases τ <;> rfl

/-! ## A signature is over the root beside it -/

/-- The columns of the row hold this signature. -/
def MerkleRoot.Holds (root : MerkleRoot) (signed : RootSignature) : Prop :=
  root.signature = some signed.signature ∧ root.publicKey = some signed.publicKey ∧
    root.signatureAlg = some signed.algorithm

/-- A row with a signature holds one that was produced over what the row says. -/
def SignatureMatches (s : State) : Prop :=
  ∀ c root, s.roots c = some root → root.signature ≠ none →
    ∃ signed, root.Holds signed ∧ (⟨c, root.rootHash, root.leafCount⟩, signed) ∈ s.signatures

/-- What a call has been given by the signer and is about to store. -/
def Actor.inHand : Actor → Option (RootMessage × RootSignature)
  | .working (.storeRootSignature m signed _) => some (m, signed)
  | _ => none

/-- A signature on its way to a row was produced over what its call has read. -/
structure Vouched (s : State) : Prop where
  rows : SignatureMatches s
  inHand : ∀ i x, (s.actors i).inHand = some x → x ∈ s.signatures

/-- A call that is over, or that holds nothing to store yet or any more. -/
inductive Actor.EmptyHanded : Actor → Prop
  | ended (reply : Option Reply) : EmptyHanded (.ended reply)
  | sign (m : RootMessage) (caller : Caller) : EmptyHanded (.working (.sign m caller))
  | getRoot (c : Text) (signed : RootSignature) : EmptyHanded (.working (.getRoot c signed))

theorem Actor.EmptyHanded.inHand (h : b.EmptyHanded) : b.inHand = none := by cases h <;> rfl

theorem requestSignature_emptyHanded {isServiceCaller : Bool} {root : Option MerkleRoot} :
    (requestSignature isServiceCaller c root).EmptyHanded := by
  unfold requestSignature
  split
  · exact .ended _
  · split
    · exact .ended _
    · split
      · exact .ended _
      · exact .sign _ _

theorem runTool_emptyHanded {root : Option MerkleRoot} : (runTool c root).EmptyHanded := by
  cases root with
  | none => exact .ended _
  | some root => exact .sign _ _

theorem signerFailed_emptyHanded {caller : Caller} {status : Option ℕ} {detail : Text} :
    (signerFailed caller status detail).EmptyHanded := by
  unfold signerFailed
  split <;> exact .ended _

theorem perform_emptyHanded : (perform s now τ).2.EmptyHanded := by
  cases τ with
  | upsert c root leafCount maxLedgerId => exact .ended _
  | sign m caller => exact .sign _ _
  | storeRootSignature m signed caller =>
    cases caller
    · simp only [perform, stored]
      split
      · exact .getRoot _ _
      · exact .ended _
    · simp only [perform, stored]
      split <;> exact .ended _
  | getRoot c signed => exact .ended _

theorem computeAndStoreRoot_cases (sha256 : Buffer → Buffer) (c : Text) (rows : List LedgerRow) :
    computeAndStoreRoot sha256 c rows = none ∨
      ∃ root, computeAndStoreRoot sha256 c rows =
        some (.upsert c root rows.length (rows.getLast?.map (·.ledgerId))) := by
  unfold computeAndStoreRoot
  split
  · exact .inl rfl
  · next leaves hleaves =>
    rw [length_of_mapM hleaves]
    cases computeRoot sha256 leaves with
    | none => exact .inl rfl
    | some root => exact .inr ⟨toHex root, rfl⟩

theorem Vouched.setActor (h : Vouched s) (hb : ∀ x, b.inHand = some x → x ∈ s.signatures) :
    Vouched (s.setActor i b) := by
  refine ⟨h.rows, ?_⟩
  rw [setActor_actors]
  exact (Function.forall_update_iff _ fun _ (b : Actor) =>
    ∀ x, b.inHand = some x → x ∈ s.signatures).mpr
    ⟨hb, fun j _ => h.inHand j⟩

theorem Vouched.emptyHanded (h : Vouched s) (hb : b.EmptyHanded) : Vouched (s.setActor i b) :=
  h.setActor fun x hx => by rw [hb.inHand] at hx; cases hx

theorem Vouched.perform (h : Vouched s) (hi : s.actors i = .working τ) :
    Vouched (perform s now τ).1 := by
  refine ⟨fun c root hc hsig => ?_, by simpa using h.inHand⟩
  rw [perform_signatures]
  cases τ with
  | upsert c' hash leafCount maxLedgerId =>
    -- the row that the upsert leaves has no signature
    by_cases hcc : c = c'
    · subst hcc
      simp only [Roots.perform, State.setRoot, Function.update_self] at hc
      cases hc
      exact absurd rfl hsig
    · simp only [Roots.perform, State.setRoot, Function.update_of_ne hcc] at hc
      exact h.rows c root hc hsig
  | storeRootSignature m signed caller =>
    by_cases hcc : c = m.contractId
    · subst hcc
      simp only [Roots.perform, State.setRoot, Function.update_self] at hc
      obtain ⟨before, hbefore, rfl⟩ := Option.map_eq_some_iff.mp hc
      split at hsig
      · next hguard =>
        obtain ⟨hhash, hcount⟩ : before.rootHash = m.rootHash ∧ before.leafCount = m.leafCount := by
          simpa [matches?] using hguard
        rw [if_pos hguard]
        refine ⟨signed, ⟨rfl, rfl, rfl⟩, ?_⟩
        rw [hhash, hcount]
        exact h.inHand i (m, signed) (by rw [hi]; rfl)
      · next hguard =>
        rw [if_neg hguard]
        exact h.rows _ before hbefore hsig
    · simp only [Roots.perform, State.setRoot, Function.update_of_ne hcc] at hc
      exact h.rows c root hc hsig
  | _ => exact h.rows c root hc hsig

theorem vouched_step (h : Vouched s) (hst : step sha256 s a = some t) : Vouched t := by
  cases step_cases hst with
  | append => exact ⟨h.rows, h.inHand⟩
  | @computeAndStoreRoot i c hi =>
    rcases computeAndStoreRoot_cases sha256 c (s.chains c) with hnone | ⟨root, hsome⟩
    · rw [hnone]
      exact h.emptyHanded (.ended none)
    · rw [hsome]
      exact h.setActor fun x hx => by cases hx
  | requestSignature => exact h.emptyHanded requestSignature_emptyHanded
  | runTool => exact h.emptyHanded runTool_emptyHanded
  | @answer i m caller signed hi =>
    have hmore : Vouched { s with signatures := (m, signed) :: s.signatures } := by
      refine ⟨fun c root hc hsig => ?_, fun j x hx => List.mem_cons_of_mem _ (h.inHand j x hx)⟩
      obtain ⟨signed', hholds, hmem⟩ := h.rows c root hc hsig
      exact ⟨signed', hholds, List.mem_cons_of_mem _ hmem⟩
    apply hmore.setActor
    intro x hx
    cases hx
    exact List.mem_cons_self
  | refuse => exact h.emptyHanded signerFailed_emptyHanded
  | take hi _ _ =>
    apply (h.perform hi).emptyHanded
    split
    · exact perform_emptyHanded
    · exact .ended none
  | fail => exact h.emptyHanded (.ended none)
  | crash => exact h.emptyHanded (.ended none)

/-- Over every interleaving, what is stored beside a root was produced over that root. -/
theorem signature_matches (sha256 : Buffer → Buffer) (h0 : Initial s)
    (h : (system sha256).Run Machine.Any s as t) :
    ∀ r ∈ (system sha256).visited s as, SignatureMatches r := by
  obtain ⟨hroots, hsignatures, hidle⟩ := h0
  have hs : Vouched s := by
    refine ⟨fun c root hc => ?_, fun i x hx => ?_⟩
    · rw [hroots c] at hc
      cases hc
    · rw [hidle i] at hx
      cases hx
  exact fun r hr => (h.forall_visited (fun _ _ _ hI _ hst => vouched_step hI hst) hs r hr).rows

/-! ## A root that moves while it is signed -/

/-- The second entry of the chain that `opening` begins. -/
def passed : LedgerRow :=
  { opening with
    ledgerId := 2
    actionType := units "AUDIT_PASSED"
    previousHash := opening.currentHash
    currentHash := units "52743b17bc32bd6bf85c9037e35a253c6403533a64962df77eaf2316a92e5149" }

/-- The digests of the messages that are hashed for the two entries. -/
def rootDigests : List (Buffer × Buffer) :=
  let first := digestBytes 0xf93049f07fc292abbd0d9ee34eb94932637df246e137fa175117301fe84df22c
  let second := digestBytes 0xb79a158afc52805196ab093e0beed436f933c87035e37cd77688f93798182ac2
  [(0x00 :: utf8 (units ("\x7b\"actionType\":\"AUDIT_FAILED\",\"contractId\":\"c-1\"," ++
      "\"currentHash\":\"6a36ba0c0fb5a985047f20c6206fa99e211da985f257a61a77f6e51ec3bf3be7\"," ++
      "\"ledgerId\":1,\"payload\":\x7b\x7d,\"previousHash\":\"GENESIS\"\x7d")), first),
    (0x00 :: utf8 (units ("\x7b\"actionType\":\"AUDIT_PASSED\",\"contractId\":\"c-1\"," ++
      "\"currentHash\":\"52743b17bc32bd6bf85c9037e35a253c6403533a64962df77eaf2316a92e5149\"," ++
      "\"ledgerId\":2,\"payload\":\x7b\x7d,\"previousHash\":" ++
      "\"6a36ba0c0fb5a985047f20c6206fa99e211da985f257a61a77f6e51ec3bf3be7\"\x7d")), second),
    (0x01 :: first ++ second,
      digestBytes 0x8f0568ed10be4f5127c2aa86b9c9d90618074eaeb94d1dd175431e75b139438e)]

def rootDigest (b : Buffer) : Buffer := (rootDigests.lookup b).getD []

theorem initial_default : Initial {} := ⟨fun _ => rfl, rfl, fun _ => rfl⟩

/-- A signature is stored; the next request is answered after the root has moved. -/
def signedWhileMoving : List Action :=
  let c := opening.contractId
  let signed (n : ℕ) : RootSignature := ⟨units "ML-DSA-87", digestBytes n, digestBytes 9⟩
  [.append opening, .computeAndStoreRoot 0 c, .advance 0 .ok 1, .runTool 1 c,
    .requestSignature 2 true c, .answer 2 (signed 1), .advance 2 .ok 2, .append passed,
    .computeAndStoreRoot 3 c, .advance 3 .ok 3, .answer 1 (signed 2), .advance 1 .ok 4]

theorem signature_matches_moving : ∃ t, (system rootDigest).exec {} signedWhileMoving = some t ∧
    ∀ r ∈ (system rootDigest).visited {} signedWhileMoving, SignatureMatches r := by
  have h : ((system rootDigest).exec {} signedWhileMoving).isSome := by decide +kernel
  obtain ⟨t, ht⟩ := Option.isSome_iff_exists.mp h
  exact ⟨t, ht, signature_matches rootDigest initial_default (Machine.run_of_exec ht)⟩

end AssureCode.Ledger.Roots
