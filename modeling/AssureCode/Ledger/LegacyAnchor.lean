import AssureCode.Js.NumberText
import AssureCode.Ledger.Chain
import AssureCode.Ledger.Inclusion
import AssureCode.Transition.Loop

/-! # Anchors of legacy rows

Rows that nothing can recompute are sealed by an entry that lists their ids and hashes and the
Merkle root over the hashes. The check of an anchor walks over the ids and looks each of them up;
it never compares the lengths of the two lists.
-/

namespace AssureCode.Ledger

open Js Merkle

def legacyAnchorAction : Text := units "LEGACY_SEGMENT_ANCHORED"

structure LegacyAnchorPayload where
  kind : Text := legacyAnchorAction
  contractId : Text
  sealedHashVersion : ℤ
  sealedLedgerIds : List Number
  sealedHashes : List Text
  sealedMerkleRoot : Text
  assertion : Text

/-- A row that cannot be recomputed by anyone outside the original database. -/
def isLegacyRow (row : LedgerRow) : Bool :=
  row.hashVersion < currentHashVersion || row.payloadCanonical.isNone

/-- The legacy rows of a chain, in ledger order. -/
def selectLegacyRows (rows : List LedgerRow) : List LedgerRow :=
  (rows.filter isLegacyRow).mergeSort fun a b => a.ledgerId ≤ b.ledgerId

/-- The key of a row in a map by ids. -/
def LedgerRow.idNumber (row : LedgerRow) : Number := .ofRat row.ledgerId

/-- `computeRoot(hashes.map((h) => hashLeaf(h))).toString('hex')` -/
def rootOfHashes (sha256 : Buffer → Buffer) (hashes : List Text) : Option Text :=
  (computeRoot sha256 (hashes.map fun h => hashLeaf sha256 (utf8 h))).map toHex

def anchorAssertion : Text := units <|
  "These rows predate the V009 canonicalization migration and were hashed with a " ++
  "PostgreSQL-specific expression that cannot be reproduced independently. This entry " ++
  "does NOT assert that they are correct or that their contents are what they claim. " ++
  "It asserts only that their current_hash values were exactly these at the time this " ++
  "entry was appended, and — because this entry is itself chained and Merkle-committed " ++
  "under the current formula — that they have not been altered since."

/-- `NoLegacyRowsError` -/
def noLegacyRows (contractId : Text) : Text :=
  units "contract " ++ contractId ++ units " has no pre-V009 rows; there is nothing to seal"

def buildLegacyAnchorPayload (sha256 : Buffer → Buffer) (contractId : Text)
    (rows : List LedgerRow) : Except Text LegacyAnchorPayload :=
  let legacy := selectLegacyRows rows
  match legacy.map (·.hashVersion), rootOfHashes sha256 (legacy.map (·.currentHash)) with
  | version :: versions, some root =>
    .ok {
      contractId := contractId
      sealedHashVersion := versions.foldl max version
      sealedLedgerIds := legacy.map (·.idNumber)
      sealedHashes := legacy.map (·.currentHash)
      sealedMerkleRoot := root
      assertion := anchorAssertion }
  | _, _ => .error (noLegacyRows contractId)

structure AnchorCheck where
  intact : Bool
  discrepancies : List Text
  sealedCount : ℕ

/-- `byId.get(ledgerId)`; of rows with one id the map keeps the last. -/
def rowOf (rows : List LedgerRow) (ledgerId : Number) : Option LedgerRow :=
  rows.reverse.find? fun row => row.idNumber = ledgerId

/-- What is found wrong with a sealed id; past the end of the hashes there is nothing to slice. -/
def discrepancy (rows : List LedgerRow) (hashes : List Text) (sealed : Number × ℕ) :
    Except String (Option Text) :=
  match rowOf rows sealed.1 with
  | none => .ok (units "ledger_id " ++ sealed.1.text ++
      units " is sealed by the anchor but no longer exists")
  | some row =>
    match hashes[sealed.2]? with
    | none => .error "Cannot read properties of undefined (reading 'slice')"
    | some expected =>
      if row.currentHash = expected then .ok none
      else .ok (units "ledger_id " ++ sealed.1.text ++ units ": current_hash " ++
        row.currentHash.take 16 ++ units "… does not match the sealed value " ++
        expected.take 16 ++ units "…")

def rootDiscrepancy : Text :=
  units "the anchor's own sealedMerkleRoot does not match its sealedHashes; " ++
    units "the payload has been edited"

def verifyLegacyAnchor (sha256 : Buffer → Buffer) (payload : LegacyAnchorPayload)
    (rows : List LedgerRow) : Except String AnchorCheck := do
  let ofRows ← collect (discrepancy rows payload.sealedHashes) payload.sealedLedgerIds.zipIdx
  let recomputed := rootOfHashes sha256 payload.sealedHashes
  let discrepancies :=
    ofRows ++ if recomputed = some payload.sealedMerkleRoot then [] else [rootDiscrepancy]
  return {
    intact := discrepancies.length = 0
    discrepancies := discrepancies
    sealedCount := payload.sealedLedgerIds.length }

/-- The check reports the anchor intact. -/
def Intact (sha256 : Buffer → Buffer) (payload : LegacyAnchorPayload) (rows : List LedgerRow) :
    Prop :=
  ∃ c, verifyLegacyAnchor sha256 payload rows = .ok c ∧ c.intact = true

/-- Each sealed id names a row whose current hash stands at its place in the list of hashes. -/
def Names (rows : List LedgerRow) (ids : List Number) (hashes : List Text) : Prop :=
  ∀ (i : ℕ) (id : Number), ids[i]? = some id →
    ∃ row, rowOf rows id = some row ∧ hashes[i]? = some row.currentHash

/-- Each sealed hash is the current hash of the row with its own id. -/
def LegacyAnchorPayload.Matched (p : LegacyAnchorPayload) (rows : List LedgerRow) : Prop :=
  ∀ (i : ℕ) (h : Text), p.sealedHashes[i]? = some h → ∃ id row, p.sealedLedgerIds[i]? = some id ∧
    rowOf rows id = some row ∧ row.currentHash = h

/-- The anchor with other ids and hashes under the sealed root. -/
def LegacyAnchorPayload.altered (p : LegacyAnchorPayload) (ids : List Number)
    (hashes : List Text) : LegacyAnchorPayload :=
  { p with sealedLedgerIds := ids, sealedHashes := hashes }

/--
What the check of an anchor is for: it returns, it reports an anchor intact only if every sealed
hash is that of its row, and an alteration of the ids or the hashes is noticed.
-/
structure Checked (sha256 : Buffer → Buffer) (p : LegacyAnchorPayload) (rows : List LedgerRow)
    (ids : List Number) (hashes : List Text) : Prop where
  returns : ∃ c, verifyLegacyAnchor sha256 p rows = .ok c
  matched : Intact sha256 p rows → p.Matched rows
  noticed : Intact sha256 p rows → (ids, hashes) ≠ (p.sealedLedgerIds, p.sealedHashes) →
    ¬ Intact sha256 (p.altered ids hashes) rows

/--
An alteration that goes unnoticed: the hashes have the bytes they had, and the ids name rows that
have them.
-/
def LegacyAnchorPayload.Unnoticed (p : LegacyAnchorPayload) (rows : List LedgerRow)
    (ids : List Number) (hashes : List Text) : Prop :=
  (ids, hashes) ≠ (p.sealedLedgerIds, p.sealedHashes) ∧
    hashes.map utf8 = p.sealedHashes.map utf8 ∧ Names rows ids hashes

variable {sha256 : Buffer → Buffer} {p : LegacyAnchorPayload} {rows : List LedgerRow}
  {ids : List Number} {hashes hashes' : List Text} {id : Number} {i : ℕ}

/-! ## What the walk finds -/

theorem exists_discrepancy_iff : (∃ o, discrepancy rows hashes (id, i) = .ok o) ↔
    (hashes.length ≤ i → rowOf rows id = none) := by
  unfold discrepancy
  cases hrow : rowOf rows id with
  | none => simp
  | some row =>
    cases hhash : hashes[i]? with
    | none => simpa using List.getElem?_eq_none_iff.mp hhash
    | some expected =>
      have hlt : i < hashes.length := (List.getElem?_eq_some_iff.mp hhash).1
      have hnot : ¬ hashes.length ≤ i := by omega
      dsimp only
      split <;> simp [hnot]

theorem discrepancy_eq_none_iff : discrepancy rows hashes (id, i) = .ok none ↔
    ∃ row, rowOf rows id = some row ∧ hashes[i]? = some row.currentHash := by
  unfold discrepancy
  cases hrow : rowOf rows id with
  | none => simp
  | some row =>
    simp only [Option.some.injEq, exists_eq_left']
    cases hhash : hashes[i]? with
    | none => simp
    | some expected =>
      simp only [Option.some.injEq]
      split
      · next heq => simp [heq]
      · next hne => simp [Ne.symm hne]

theorem forall_zipIdx_iff {P : Number × ℕ → Prop} :
    (∀ x ∈ ids.zipIdx, P x) ↔ ∀ (i : ℕ) (id : Number), ids[i]? = some id → P (id, i) := by
  simp only [Prod.forall, List.mem_zipIdx_iff_getElem?]
  exact forall_comm

theorem names_iff : Names rows ids hashes ↔
    ∀ x ∈ ids.zipIdx, discrepancy rows hashes x = .ok none := by
  rw [forall_zipIdx_iff]
  simp only [discrepancy_eq_none_iff, Names]

/-- The check returns when no id past the end of the hashes is that of a row. -/
theorem exists_verify_iff : (∃ c, verifyLegacyAnchor sha256 p rows = .ok c) ↔
    ∀ (i : ℕ) (id : Number), p.sealedLedgerIds[i]? = some id → p.sealedHashes.length ≤ i →
      rowOf rows id = none := by
  simp only [← exists_discrepancy_iff, ← forall_zipIdx_iff (P := fun x =>
    ∃ o, discrepancy rows p.sealedHashes x = .ok o), ← exists_collect_iff]
  unfold verifyLegacyAnchor
  cases collect (discrepancy rows p.sealedHashes) p.sealedLedgerIds.zipIdx <;>
    simp [bind, Except.bind, pure, Except.pure]

/-- An anchor is intact when its ids name the rows and its root is that of its hashes. -/
theorem intact_iff : Intact sha256 p rows ↔ Names rows p.sealedLedgerIds p.sealedHashes ∧
    rootOfHashes sha256 p.sealedHashes = some p.sealedMerkleRoot := by
  unfold Intact verifyLegacyAnchor
  cases hwalk : collect (discrepancy rows p.sealedHashes) p.sealedLedgerIds.zipIdx with
  | error e =>
    have hno : ¬ Names rows p.sealedLedgerIds p.sealedHashes := by
      intro hnames
      have hreturns : ∃ ys, collect (discrepancy rows p.sealedHashes) p.sealedLedgerIds.zipIdx =
          .ok ys := by
        rw [exists_collect_iff]
        exact fun x hx => ⟨none, names_iff.mp hnames x hx⟩
      obtain ⟨ys, hys⟩ := hreturns
      cases hwalk.symm.trans hys
    simp [bind, Except.bind, hno]
  | ok ofRows =>
    have hnil : ofRows = [] ↔ Names rows p.sealedLedgerIds p.sealedHashes := by
      rw [collect_eq_nil_iff hwalk, names_iff]
    rw [← hnil]
    simp only [bind, Except.bind, pure, Except.pure, Except.ok.injEq, exists_eq_left']
    split <;> simp_all

theorem Names.length_le (h : Names rows ids hashes) : ids.length ≤ hashes.length := by
  by_contra hlt
  have hget : ids[hashes.length]? = some ids[hashes.length] := List.getElem?_eq_getElem (by omega)
  obtain ⟨row, -, hhash⟩ := h _ _ hget
  simp at hhash

/-- Where the ids name rows, each hash is matched when there are as many ids as hashes. -/
theorem matched_iff (h : Names rows p.sealedLedgerIds p.sealedHashes) :
    p.Matched rows ↔ p.sealedLedgerIds.length = p.sealedHashes.length := by
  have hle := h.length_le
  constructor
  · intro hmatched
    by_contra hne
    have hget : p.sealedHashes[p.sealedLedgerIds.length]? =
        some p.sealedHashes[p.sealedLedgerIds.length] := List.getElem?_eq_getElem (by omega)
    obtain ⟨id, row, hid, -⟩ := hmatched _ _ hget
    simp at hid
  · intro hlen i hash hhash
    have hlt : i < p.sealedLedgerIds.length := by
      have := (List.getElem?_eq_some_iff.mp hhash).1
      omega
    have hget : p.sealedLedgerIds[i]? = some p.sealedLedgerIds[i] := List.getElem?_eq_getElem hlt
    obtain ⟨row, hrow, hsame⟩ := h i _ hget
    exact ⟨_, row, hget, hrow, Option.some.inj (hsame.symm.trans hhash)⟩

/-! ## An anchor that was built -/

variable {row : LedgerRow} {contractId : Text}

theorem rowOf_idNumber (hd : (rows.map (·.idNumber)).Nodup) (h : row ∈ rows) :
    rowOf rows row.idNumber = some row := by
  have hsome : (rowOf rows row.idNumber).isSome := by
    rw [rowOf, List.find?_isSome]
    exact ⟨row, List.mem_reverse.mpr h, by simp⟩
  obtain ⟨r, hr⟩ := Option.isSome_iff_exists.mp hsome
  have hmem : r ∈ rows := List.mem_reverse.mp (List.mem_of_find?_eq_some hr)
  have hid : r.idNumber = row.idNumber := by simpa using List.find?_some hr
  rw [hr, List.inj_on_of_nodup_map hd hmem h hid]

/-- On the rows it was built from an anchor is intact, with as many ids as hashes. -/
theorem intact_build (hd : (rows.map (·.idNumber)).Nodup)
    (h : buildLegacyAnchorPayload sha256 contractId rows = .ok p) :
    Intact sha256 p rows ∧ p.sealedLedgerIds.length = p.sealedHashes.length := by
  unfold buildLegacyAnchorPayload at h
  simp only at h
  split at h
  · rename_i hroot
    cases h
    refine ⟨intact_iff.mpr ⟨?_, hroot⟩, by simp⟩
    intro i id hid
    rw [List.getElem?_map, Option.map_eq_some_iff] at hid
    obtain ⟨row, hrow, rfl⟩ := hid
    have hmem : row ∈ rows := List.mem_of_mem_filter
      (List.mem_mergeSort.mp (List.mem_of_getElem? hrow))
    exact ⟨row, rowOf_idNumber hd hmem, by rw [List.getElem?_map, hrow]; rfl⟩
  · cases h

/-! ## What the root binds -/

variable {messages : Set Buffer} {data data' : List Buffer}

/-- No tree over data has the root of the empty tree. -/
theorem treeHash_ne_emptyRoot (hne : data ≠ []) (hfree : Set.InjOn sha256 messages)
    (hempty : [] ∈ messages) (hsub : ∀ m ∈ treeMessages sha256 data, m ∈ messages) :
    treeHash (hashNode sha256) (emptyRoot sha256) (data.map (hashLeaf sha256)) ≠
      emptyRoot sha256 := by
  have hne' : data.map (hashLeaf sha256) ≠ [] := by simpa using hne
  intro h
  rcases treeHash_cases (hashNode sha256) (emptyRoot sha256) hne' with
    ⟨x, hx, htree⟩ | ⟨hlong, htree⟩
  · obtain ⟨d, hd, rfl⟩ := List.mem_map.mp (hx ▸ List.mem_singleton_self x)
    cases hfree (hsub _ (leaf_mem_treeMessages hd)) hempty (htree.symm.trans h)
  · have hjoin : joins (hashNode sha256) (emptyRoot sha256) _ = _ := joins_split hlong
    have hmem := hsub _ (List.mem_append_right _
      (List.mem_map_of_mem (f := nodeMessage) (hjoin ▸ List.mem_cons_self)))
    cases hfree hmem hempty (htree.symm.trans h)

theorem data_eq_of_computeRoot_eq (hsha : ∀ b, (sha256 b).length = 32)
    (hfree : Set.InjOn sha256
      {m | m = [] ∨ m ∈ treeMessages sha256 data ∨ m ∈ treeMessages sha256 data'})
    (h : computeRoot sha256 (data.map (hashLeaf sha256)) =
      computeRoot sha256 (data'.map (hashLeaf sha256))) : data = data' := by
  have hnil : treeHash (hashNode sha256) (emptyRoot sha256) ([].map (hashLeaf sha256)) =
      emptyRoot sha256 := treeHash_nil
  rw [computeRoot_eq_treeHash, computeRoot_eq_treeHash, Option.some.injEq] at h
  by_cases hdata : data = [] <;> by_cases hdata' : data' = []
  · rw [hdata, hdata']
  · rw [hdata, hnil] at h
    exact absurd h.symm (treeHash_ne_emptyRoot hdata' hfree (.inl rfl) fun m hm => .inr (.inr hm))
  · rw [hdata', hnil] at h
    exact absurd h (treeHash_ne_emptyRoot hdata hfree (.inl rfl) fun m hm => .inr (.inl hm))
  · exact data_eq_of_treeHash_eq hsha hdata hdata' hfree (fun m hm => .inr (.inl hm))
      (fun m hm => .inr (.inr hm)) h

theorem toHex_injective : Function.Injective toHex := fun a b h => by
  rw [← fromHex_toHex a, h, fromHex_toHex]

/-- The root binds the bytes of the hashes. -/
theorem rootOfHashes_eq_iff (hsha : ∀ b, (sha256 b).length = 32)
    (hfree : Set.InjOn sha256 {m | m = [] ∨ m ∈ treeMessages sha256 (hashes.map utf8) ∨
      m ∈ treeMessages sha256 (hashes'.map utf8)}) :
    rootOfHashes sha256 hashes = rootOfHashes sha256 hashes' ↔
      hashes.map utf8 = hashes'.map utf8 := by
  have hroot : ∀ hs : List Text, rootOfHashes sha256 hs =
      (computeRoot sha256 ((hs.map utf8).map (hashLeaf sha256))).map toHex := by
    intro hs
    rw [rootOfHashes, List.map_map]
    rfl
  rw [hroot, hroot]
  constructor
  · intro h
    exact data_eq_of_computeRoot_eq hsha hfree (Option.map_injective toHex_injective h)
  · intro h
    rw [h]

/--
The check does what it is for exactly when no id past the end of the hashes is that of a row and,
where the ids name the rows of the hashes under their root, there are as many of both and the
alteration does not name the rows of the same hashes again.
-/
theorem checked_iff (hsha : ∀ b, (sha256 b).length = 32)
    (hfree : Set.InjOn sha256 {m | m = [] ∨ m ∈ treeMessages sha256 (hashes.map utf8) ∨
      m ∈ treeMessages sha256 (p.sealedHashes.map utf8)}) :
    Checked sha256 p rows ids hashes ↔
      (∀ (i : ℕ) (id : Number), p.sealedLedgerIds[i]? = some id → p.sealedHashes.length ≤ i →
        rowOf rows id = none) ∧
      (Names rows p.sealedLedgerIds p.sealedHashes →
        rootOfHashes sha256 p.sealedHashes = some p.sealedMerkleRoot →
          p.sealedLedgerIds.length = p.sealedHashes.length ∧ ¬ p.Unnoticed rows ids hashes) := by
  have haltered : Intact sha256 p rows → (Intact sha256 (p.altered ids hashes) rows ↔
      hashes.map utf8 = p.sealedHashes.map utf8 ∧ Names rows ids hashes) := by
    intro h
    rw [intact_iff, ← rootOfHashes_eq_iff hsha hfree, (intact_iff.mp h).2, and_comm]
    rfl
  have hverify : (∃ c, verifyLegacyAnchor sha256 p rows = .ok c) ↔ _ := exists_verify_iff
  rw [← hverify]
  constructor
  · rintro ⟨hreturns, hmatched, hnoticed⟩
    refine ⟨hreturns, fun hnames hroot => ?_⟩
    have hintact : Intact sha256 p rows := intact_iff.mpr ⟨hnames, hroot⟩
    refine ⟨(matched_iff hnames).mp (hmatched hintact), ?_⟩
    rintro ⟨hne, h⟩
    exact hnoticed hintact hne ((haltered hintact).mpr h)
  · rintro ⟨hreturns, hsealed⟩
    constructor
    · exact hreturns
    · intro hintact
      obtain ⟨hnames, hroot⟩ := intact_iff.mp hintact
      exact (matched_iff hnames).mpr (hsealed hnames hroot).1
    · intro hintact hne h
      obtain ⟨hnames, hroot⟩ := intact_iff.mp hintact
      exact (hsealed hnames hroot).2 ⟨hne, (haltered hintact).mp h⟩

/-! ## Three rows -/

theorem distinct_object_nil : (Json.object []).Distinct := by
  simp [Json.Distinct, Json.DistinctMembers]

def legacyRow (ledgerId : ℕ) (currentHash : Text) : LedgerRow where
  ledgerId := ledgerId
  contractId := units "c-1"
  actionType := units "CONTRACT_CREATED"
  payload := ⟨.object [], distinct_object_nil⟩
  payloadCanonical := none
  previousHash := genesis
  currentHash := currentHash
  hashVersion := 1

def threeRows : List LedgerRow :=
  [legacyRow 1 (units "a"), legacyRow 2 (units "b"), legacyRow 3 (units "c")]

/-- The anchor of the three rows, with these ids. -/
def threeSealed (ids : List ℕ) : LegacyAnchorPayload where
  contractId := units "c-1"
  sealedHashVersion := 1
  sealedLedgerIds := ids.map fun n => .ofRat n
  sealedHashes := [units "a", units "b", units "c"]
  sealedMerkleRoot := units "36642e73c2540ab121e3a6bf9545b0a24982cd830eb13d3cd19de3ce6c021ec1"
  assertion := anchorAssertion

theorem injOn_threeSealed : Set.InjOn treeDigest
    {m | m = [] ∨ m ∈ treeMessages treeDigest ((threeSealed [1, 2, 3]).sealedHashes.map utf8) ∨
      m ∈ treeMessages treeDigest ((threeSealed [1, 2, 3]).sealedHashes.map utf8)} := by
  have hall : ∀ m ∈ [] :: treeMessages treeDigest ((threeSealed [1, 2, 3]).sealedHashes.map utf8),
      ∀ m' ∈ [] :: treeMessages treeDigest ((threeSealed [1, 2, 3]).sealedHashes.map utf8),
        treeDigest m = treeDigest m' → m = m' := by
    decide +kernel
  intro m hm m' hm'
  rw [Set.mem_ofPred_eq, or_self, ← List.mem_cons] at hm hm'
  exact hall m hm m' hm'

/-- Ids in another order are noticed. -/
theorem checked_reversed :
    Checked treeDigest (threeSealed [1, 2, 3]) threeRows
      (threeSealed [3, 2, 1]).sealedLedgerIds (threeSealed [1, 2, 3]).sealedHashes := by
  refine (checked_iff length_treeDigest injOn_threeSealed).mpr ⟨?_, ?_⟩
  · intro i id hid hi
    have hlt : i < 3 := (List.getElem?_eq_some_iff.mp hid).1
    have hle : 3 ≤ i := hi
    omega
  · rintro - -
    refine ⟨rfl, ?_⟩
    rintro ⟨-, -, hnames⟩
    rw [names_iff] at hnames
    revert hnames
    decide +kernel

/-- Under one id two hashes go unchecked; under three hashes a fourth id makes the check throw. -/
theorem tail_unchecked :
    Intact treeDigest (threeSealed [1]) threeRows ∧ ¬ (threeSealed [1]).Matched threeRows ∧
      ¬ ∃ c, verifyLegacyAnchor treeDigest (threeSealed [1, 2, 3, 1]) threeRows = .ok c := by
  have hnames : Names threeRows (threeSealed [1]).sealedLedgerIds (threeSealed [1]).sealedHashes :=
    names_iff.mpr (by decide +kernel)
  refine ⟨intact_iff.mpr ⟨hnames, by decide +kernel⟩, ?_, ?_⟩
  · rw [matched_iff hnames]
    decide
  · intro h
    have hnone := exists_verify_iff.mp h 3 _ rfl le_rfl
    have hsome : (rowOf threeRows (.ofRat (1 : ℕ))).isSome := by decide +kernel
    rw [hnone] at hsome
    cases hsome

end AssureCode.Ledger
