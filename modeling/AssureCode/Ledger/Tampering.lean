import AssureCode.Ledger.Chain

/-! # What the hash chain binds

The hash of a row covers its canonical text and the hash of the row before it. An edit of the text
or of the payload is noticed; the action type is not hashed, and a row that is marked as older
than the formula, or that has lost its canonical text, is not looked at.
-/

namespace AssureCode.Ledger

open Js Json

/-- The texts that are hashed for the rows of a chain. -/
def hashed (rows : List LedgerRow) : List Text :=
  rows.filterMap fun row => row.payloadCanonical.map (chained · row.previousHash)

/-- No two of the texts have one hash. -/
def CollisionFree (sha256 : Text → Text) (texts : List Text) : Prop :=
  ∀ s ∈ texts, ∀ t ∈ texts, sha256 s = sha256 t → s = t

instance (sha256 : Text → Text) (texts : List Text) : Decidable (CollisionFree sha256 texts) :=
  inferInstanceAs (Decidable (∀ s ∈ texts, _))

/-- At most the payload, its canonical text, the action type and the version are not the same. -/
structure LedgerRow.Edited (r r' : LedgerRow) : Prop where
  ledgerId : r'.ledgerId = r.ledgerId
  contractId : r'.contractId = r.contractId
  previousHash : r'.previousHash = r.previousHash
  currentHash : r'.currentHash = r.currentHash

/-- One of the four has another value. -/
def LedgerRow.Differs (r r' : LedgerRow) : Prop :=
  ¬ r'.payload.value.Same r.payload.value ∨ r'.payloadCanonical ≠ r.payloadCanonical ∨
    r'.actionType ≠ r.actionType ∨ r'.hashVersion ≠ r.hashVersion

/-- The edit leaves a row that can be recomputed, and what is recomputed is not what it was. -/
def LedgerRow.Exposed (r r' : LedgerRow) : Prop :=
  currentHashVersion ≤ r'.hashVersion ∧ r'.payloadCanonical ≠ none ∧
    (r'.payloadCanonical ≠ r.payloadCanonical ∨ ¬ r'.payload.value.Same r.payload.value)

/-- Equal payloads, as JSON values, and equal hashes. -/
def LedgerRow.Agrees (r r' : LedgerRow) : Prop :=
  r.payload.value.Same r'.payload.value ∧ r.previousHash = r'.previousHash ∧
    r.currentHash = r'.currentHash

/-- The hash that the next row has to name. -/
def tailHash (rows : List LedgerRow) : Text := (rows.getLast?.map (·.currentHash)).getD genesis

variable {sha256 : Text → Text} {r r' row row' : LedgerRow}
  {pre post rows rows' init init' : List LedgerRow} {previous stored stored' p p' : Text}

/-! ## Rows -/

theorem recomputable_eq_none :
    row.recomputable = none ↔
      row.hashVersion < currentHashVersion ∨ row.payloadCanonical = none := by
  unfold LedgerRow.recomputable
  split
  · next hold => simp [hold]
  · next hnew => simp [hnew]

theorem recomputable_eq_some : row.recomputable = some stored ↔
    currentHashVersion ≤ row.hashVersion ∧ row.payloadCanonical = some stored := by
  unfold LedgerRow.recomputable
  split
  · next hold => simp [not_le.mpr hold]
  · next hnew => simp [not_lt.mp hnew]

theorem mem_hashed (hrow : row ∈ rows) (h : row.payloadCanonical = some stored) :
    chained stored row.previousHash ∈ hashed rows :=
  List.mem_filterMap.mpr ⟨row, hrow, by rw [h]; rfl⟩

theorem hashed_mono (h : rows ⊆ rows') : hashed rows ⊆ hashed rows' :=
  List.filterMap_subset _ h

theorem CollisionFree.mono (h : rows ⊆ rows') (hc : CollisionFree sha256 (hashed rows')) :
    CollisionFree sha256 (hashed rows) :=
  fun s hs t ht => hc s (hashed_mono h hs) t (hashed_mono h ht)

/-- A sound row has the canonical text of its payload, and the hash of that text. -/
theorem sound_iff : row.Sound sha256 ↔ ∃ stored, currentHashVersion ≤ row.hashVersion ∧
    row.payloadCanonical = some stored ∧
    sha256 (chained stored row.previousHash) = row.currentHash ∧ row.payload.value.Plain ∧
    row.payload.value.sorted.stringify = stored := by
  simp only [LedgerRow.Sound, recomputable_eq_some, canonicalize_eq_ok_iff row.payload.distinct,
    chainHash, and_assoc]

theorem same_iff_text {v w : Json} (hv : v.Plain) (hw : w.Plain) :
    v.sorted.stringify = w.sorted.stringify ↔ v.Same w := by
  rw [stringify_inj (plain_sorted hv) (plain_sorted hw), same_iff_sorted hv hw]

theorem chained_inj (hs : newline ∉ stored) (hs' : newline ∉ stored')
    (h : chained stored p = chained stored' p') : stored = stored' ∧ p = p' := by
  have hlines : lines (chained stored p) = lines (chained stored' p') := congrArg lines h
  rw [chained, chained, lines_append_newline, lines_append_newline, lines_eq_singleton hs,
    lines_eq_singleton hs'] at hlines
  obtain rfl : stored = stored' := List.cons.inj hlines |>.1
  exact ⟨rfl, (List.cons.inj (List.append_cancel_left h)).2⟩

/-! ## One edited row -/

theorem chained_append : Chained previous (pre ++ post) ↔
    Chained previous pre ∧ Chained ((pre.getLast?.map (·.currentHash)).getD previous) post := by
  induction pre generalizing previous with
  | nil => simp [Chained]
  | cons row pre ih =>
    rw [List.cons_append, Chained, Chained, ih, and_assoc, List.getLast?_cons]
    cases pre.getLast? <;> rfl

theorem chained_edited (he : r.Edited r') :
    Chained previous (pre ++ r' :: post) ↔ Chained previous (pre ++ r :: post) := by
  rw [chained_append, chained_append, Chained, Chained, he.previousHash, he.currentHash]

theorem reportsValid_edited (ha : Accepted sha256 (pre ++ r :: post)) (he : r.Edited r') :
    ReportsValid sha256 (pre ++ r' :: post) ↔ r'.recomputable = none ∨ r'.Sound sha256 := by
  obtain ⟨hchained, hsound⟩ := accepted_iff.mp ha
  rw [reportsValid_iff, chained_edited he]
  simp only [List.forall_mem_append, List.forall_mem_cons] at hsound ⊢
  constructor
  · rintro ⟨-, -, hr', -⟩
    exact hr'
  · intro hr'
    exact ⟨hchained, fun row hrow => .inr (hsound.1 row hrow), hr',
      fun row hrow => .inr (hsound.2.2 row hrow)⟩

/-- After the edit the row is still sound exactly if the same is hashed for the same payload. -/
theorem sound_edited (hc : CollisionFree sha256 (hashed [r, r'])) (hr : r.Sound sha256)
    (he : r.Edited r') : r'.Sound sha256 ↔ currentHashVersion ≤ r'.hashVersion ∧
      r'.payloadCanonical = r.payloadCanonical ∧ r'.payload.value.Same r.payload.value := by
  obtain ⟨stored, -, hstored, hhash, hp, htext⟩ := sound_iff.mp hr
  constructor
  · intro hr'
    obtain ⟨stored', hversion, hstored', hhash', hp', htext'⟩ := sound_iff.mp hr'
    have hchained := hc _ (mem_hashed (by simp) hstored') _ (mem_hashed (by simp) hstored)
      (by rw [hhash', he.currentHash, hhash])
    rw [he.previousHash] at hchained
    obtain rfl : stored' = stored := List.append_cancel_right hchained
    exact ⟨hversion, hstored'.trans hstored.symm,
      (same_iff_text hp' hp).mp (htext'.trans htext.symm)⟩
  · rintro ⟨hversion, hcanonical, hsame⟩
    have hp' := Plain.of_same hsame r'.payload.distinct hp
    refine sound_iff.mpr ⟨stored, hversion, hcanonical.trans hstored, ?_, hp', ?_⟩
    · rw [he.previousHash, he.currentHash, hhash]
    · rw [(same_iff_text hp' hp).mpr hsame, htext]

/--
An edit of one row of an accepted chain that leaves all hashes as they are is noticed exactly if
the row can still be recomputed and its canonical text or its payload is another one.
-/
theorem edit_noticed_iff (pre post : List LedgerRow)
    (hc : CollisionFree sha256 (hashed (pre ++ r :: post ++ [r'])))
    (ha : Accepted sha256 (pre ++ r :: post)) (he : r.Edited r') :
    ¬ ReportsValid sha256 (pre ++ r' :: post) ↔ r.Exposed r' := by
  have hr : r.Sound sha256 := (accepted_iff.mp ha).2 r (by simp)
  have hc' : CollisionFree sha256 (hashed [r, r']) := hc.mono (by simp)
  rw [reportsValid_edited ha he, sound_edited hc' hr he, recomputable_eq_none,
    LedgerRow.Exposed]
  constructor
  · intro h
    obtain ⟨hrecomputable, hsame⟩ := not_or.mp h
    obtain ⟨hversion, hcanonical⟩ := not_or.mp hrecomputable
    refine ⟨not_lt.mp hversion, hcanonical, ?_⟩
    by_contra hcon
    obtain ⟨hcon, hcon'⟩ := not_or.mp hcon
    exact hsame ⟨not_lt.mp hversion, not_not.mp hcon, not_not.mp hcon'⟩
  · rintro ⟨hversion, hcanonical, hother⟩ ((hold | hnone) | ⟨-, heq, hsame⟩)
    · exact absurd hversion (not_le.mpr hold)
    · exact hcanonical hnone
    · exact hother.elim (fun hne => hne heq) fun hne => hne hsame

/-- The digests of a few texts. -/
def digests : List (Text × Text) :=
  [(chained (units "\x7b\x7d") genesis,
      units "6a36ba0c0fb5a985047f20c6206fa99e211da985f257a61a77f6e51ec3bf3be7"),
    (chained (units "\x7b\"paid\":true\x7d") genesis,
      units "46388d8e59ad5537ab1710292e545c6673d761aa8a07a64e4638822de9bfd814"),
    (chained (units "\x7b\"by\":\"qa\",\"paid\":true\x7d")
        (units "6a36ba0c0fb5a985047f20c6206fa99e211da985f257a61a77f6e51ec3bf3be7"),
      units "21a55a7c07af9fd1024ea5ef0e20102fdb9d24c4be6bbad630204b11e33773a7")]

def digest (t : Text) : Text := (digests.lookup t).getD []

/-- The first row of a chain, with an empty payload. -/
def opening : LedgerRow where
  ledgerId := 1
  contractId := units "c-1"
  actionType := units "AUDIT_FAILED"
  payload := ⟨.object [], by simp [Distinct, DistinctMembers]⟩
  payloadCanonical := some (units "\x7b\x7d")
  previousHash := genesis
  currentHash := units "6a36ba0c0fb5a985047f20c6206fa99e211da985f257a61a77f6e51ec3bf3be7"
  hashVersion := 2

def paid : Payload := ⟨.object [(units "paid", .bool true)], by simp [Distinct, DistinctMembers]⟩

/-- Its action type is another one. -/
def relabelled : LedgerRow := { opening with actionType := units "AUDIT_PASSED" }

/-- Its payload is another one, and its version is that of the older rows. -/
def downgraded : LedgerRow := { opening with payload := paid, hashVersion := 1 }

/-- Its payload and canonical text are others, with its version as it was. -/
def rewritten : LedgerRow :=
  { opening with payload := paid, payloadCanonical := some (units "\x7b\"paid\":true\x7d") }

theorem opening_accepted : Accepted digest [opening] :=
  ⟨⟨true, 1, 0, []⟩, by decide +kernel, rfl, rfl⟩

/-- Neither another action type nor another payload under an older version is noticed. -/
theorem edits_unnoticed : Accepted digest [opening] ∧
    (CollisionFree digest (hashed [opening, relabelled]) ∧ opening.Edited relabelled ∧
      opening.Differs relabelled ∧ ReportsValid digest [relabelled]) ∧
    (CollisionFree digest (hashed [opening, downgraded]) ∧ opening.Edited downgraded ∧
      opening.Differs downgraded ∧ ReportsValid digest [downgraded]) := by
  have haction : relabelled.actionType ≠ opening.actionType := by decide
  have hversion : downgraded.hashVersion ≠ opening.hashVersion := by decide
  refine ⟨opening_accepted, ⟨by decide +kernel, ⟨rfl, rfl, rfl, rfl⟩, .inr (.inr (.inl haction)),
    ⟨true, 1, 0, []⟩, by decide +kernel, rfl⟩, by decide +kernel, ⟨rfl, rfl, rfl, rfl⟩,
    .inr (.inr (.inr hversion)), ⟨true, 0, 1, []⟩, by decide +kernel, rfl⟩

theorem edit_noticed_iff_rewritten :
    ¬ ReportsValid digest [rewritten] ↔ opening.Exposed rewritten :=
  edit_noticed_iff [] [] (by decide +kernel) opening_accepted ⟨rfl, rfl, rfl, rfl⟩

/-! ## The tail -/

theorem tailHash_concat (init : List LedgerRow) (row : LedgerRow) :
    tailHash (init ++ [row]) = row.currentHash := by
  simp [tailHash]

theorem accepted_concat (h : Accepted sha256 (init ++ [row])) :
    Accepted sha256 init ∧ row.previousHash = tailHash init ∧ row.Sound sha256 := by
  obtain ⟨hchained, hsound⟩ := accepted_iff.mp h
  obtain ⟨hinit, hrow, -⟩ := chained_append.mp hchained
  exact ⟨accepted_iff.mpr ⟨hinit, fun row hmem => hsound row (by simp [hmem])⟩, hrow,
    hsound row (by simp)⟩

/-- Sound rows of one hash agree, if the hash has no collision. -/
theorem agrees_of_currentHash (hc : CollisionFree sha256 (hashed [row, row']))
    (hr : row.Sound sha256) (hr' : row'.Sound sha256) (h : row.currentHash = row'.currentHash) :
    row.Agrees row' := by
  obtain ⟨stored, -, hstored, hhash, hp, rfl⟩ := sound_iff.mp hr
  obtain ⟨stored', -, hstored', hhash', hp', rfl⟩ := sound_iff.mp hr'
  have hchained := hc _ (mem_hashed (by simp) hstored) _ (mem_hashed (by simp) hstored')
    (by rw [hhash, hhash', h])
  obtain ⟨htext, hprevious⟩ := chained_inj (printable_stringify _).newline_notMem
    (printable_stringify _).newline_notMem hchained
  exact ⟨(same_iff_text hp hp').mp htext, hprevious, h⟩

/-- By induction from the end: the last rows agree, and with them the hashes they name. -/
theorem agree_of_tailHash (hc : CollisionFree sha256 (hashed (rows ++ rows')))
    (hg : ∀ t ∈ hashed (rows ++ rows'), sha256 t ≠ genesis) (ha : Accepted sha256 rows)
    (ha' : Accepted sha256 rows') (h : tailHash rows = tailHash rows') :
    List.Forall₂ LedgerRow.Agrees rows rows' := by
  have ne_genesis : ∀ {row rows}, row ∈ rows → row.Sound sha256 →
      (∀ t ∈ hashed rows, sha256 t ≠ genesis) → row.currentHash ≠ genesis := by
    intro row rows hrow hsound hg
    obtain ⟨stored, -, hstored, hhash, -⟩ := sound_iff.mp hsound
    exact hhash ▸ hg _ (mem_hashed hrow hstored)
  induction rows using List.reverseRecOn generalizing rows' with
  | nil =>
    rcases List.eq_nil_or_concat' rows' with rfl | ⟨init', row', rfl⟩
    · exact .nil
    · rw [tailHash_concat] at h
      exact absurd h.symm (ne_genesis (by simp) (accepted_concat ha').2.2 hg)
  | append_singleton init row ih =>
    obtain ⟨hinit, hprevious, hsound⟩ := accepted_concat ha
    rw [tailHash_concat] at h
    rcases List.eq_nil_or_concat' rows' with rfl | ⟨init', row', rfl⟩
    · exact absurd h (ne_genesis (by simp) hsound hg)
    · obtain ⟨hinit', hprevious', hsound'⟩ := accepted_concat ha'
      rw [tailHash_concat] at h
      have hlast : row.Agrees row' := agrees_of_currentHash (hc.mono (by simp)) hsound hsound' h
      have htail : tailHash init = tailHash init' := by
        rw [← hprevious, ← hprevious', hlast.2.1]
      have hsub : init ++ init' ⊆ init ++ [row] ++ (init' ++ [row']) := by
        intro x hx
        rcases List.mem_append.mp hx with hx | hx <;> simp [hx]
      have hrest := ih (hc.mono hsub) (fun t ht => hg t (hashed_mono hsub ht)) hinit hinit' htail
      exact List.rel_append hrest (.cons hlast .nil)

/-- Two accepted chains whose last rows have one hash are of one length and agree row by row. -/
theorem tail_binds_history {tail : Text} (hc : CollisionFree sha256 (hashed (rows ++ rows')))
    (hg : ∀ t ∈ hashed (rows ++ rows'), sha256 t ≠ genesis)
    (ha : Accepted sha256 rows) (ha' : Accepted sha256 rows')
    (ht : rows.getLast?.map (·.currentHash) = some tail)
    (ht' : rows'.getLast?.map (·.currentHash) = some tail) :
    rows.length = rows'.length ∧ List.Forall₂ LedgerRow.Agrees rows rows' := by
  have hagree := agree_of_tailHash hc hg ha ha' (by rw [tailHash, tailHash, ht, ht'])
  exact ⟨hagree.length_eq, hagree⟩

/-- A row after the first, with the members of its payload in the order given. -/
def settling (members : List (Text × Json)) (h : (Json.object members).Distinct) : LedgerRow where
  ledgerId := 2
  contractId := units "c-1"
  actionType := units "INVOICE"
  payload := ⟨.object members, h⟩
  payloadCanonical := some (units "\x7b\"by\":\"qa\",\"paid\":true\x7d")
  previousHash := opening.currentHash
  currentHash := units "21a55a7c07af9fd1024ea5ef0e20102fdb9d24c4be6bbad630204b11e33773a7"
  hashVersion := 2

def settled : LedgerRow :=
  settling [(units "paid", .bool true), (units "by", .string (units "qa"))] (by
    simp [Distinct, DistinctMembers, show units "paid" ≠ units "by" by decide])

def settledSorted : LedgerRow :=
  settling [(units "by", .string (units "qa")), (units "paid", .bool true)] (by
    simp [Distinct, DistinctMembers, show units "by" ≠ units "paid" by decide])

theorem tail_binds_history_settled :
    [opening, settled].length = [opening, settledSorted].length ∧
      List.Forall₂ LedgerRow.Agrees [opening, settled] [opening, settledSorted] :=
  have hc : CollisionFree digest (hashed ([opening, settled] ++ [opening, settledSorted])) := by
    decide +kernel
  tail_binds_history hc (by decide +kernel) ⟨⟨true, 2, 0, []⟩, by decide +kernel, rfl, rfl⟩
    ⟨⟨true, 2, 0, []⟩, by decide +kernel, rfl, rfl⟩ rfl rfl

end AssureCode.Ledger
