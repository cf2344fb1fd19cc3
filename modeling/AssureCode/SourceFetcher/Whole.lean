import AssureCode.SourceFetcher.Model

/-! # No partial audit

A blob that is not decoded is left out without an error. What is returned has every auditable blob
exactly when no blob is left out of it, so unless the audit is refused for another reason each of
them has to be decoded, or none.
-/

namespace AssureCode.SourceFetcher

open Js

/-! ## Answers -/

/-- Blobs, with the answers to the requests for them from the `n`-th on. -/
def answers (gh : GitHub) (n : ℕ) (es : List Entry) : List (Entry × Response Json) :=
  (es.zipIdx n).map fun x => (x.1, gh.blob x.2 x.1.url)

/-- The content of a blob, as its answer's encoding field says. -/
def contentOf (a : Entry × Response Json) : Option Text := a.2.served.bind decodeBlob

def totalOf (as : List (Entry × Response Json)) : ℕ :=
  ((as.filterMap contentOf).map List.length).sum

def partsOf (as : List (Entry × Response Json)) : List Text :=
  as.filterMap fun a => (contentOf a).map (partOf a.1)

variable {F : GitHubSourceFetcher} {gh : GitHub} {ref : PushRef} {label text : Text} {n total : ℕ}
  {e : Entry} {es : List Entry} {parts : List Text} {listing : Listing}

theorem getJson_eq_ok_iff {β : Type} {url : Text} {r : Response β} {b : β} :
    getJson url r = .ok b ↔ r.served = some b := by
  cases r with
  | unreachable message => simp [getJson, Response.served]
  | answered status body =>
    simp only [getJson, Response.served]
    by_cases hok : 200 ≤ status ∧ status < 300
    · have h404 : status ≠ 404 := by omega
      have h403 : status ≠ 403 := by omega
      rw [if_neg h404, if_neg h403, if_neg (not_not.mpr hok), if_pos hok]
      cases body <;> simp
    · rw [if_neg hok, if_pos hok]
      split
      · simp
      · split <;> simp

theorem answers_cons :
    answers gh n (e :: es) = (e, gh.blob n e.url) :: answers gh (n + 1) es := rfl

/-- The loop returns when every answer is there and what is decoded fits, with a part for each. -/
theorem readBlobs_eq_ok_iff (htotal : total ≤ F.maxBytes) :
    readBlobs F gh label n total es = .ok parts ↔
      (∀ a ∈ answers gh n es, a.2.served ≠ none) ∧
        total + totalOf (answers gh n es) ≤ F.maxBytes ∧ parts = partsOf (answers gh n es) := by
  induction es generalizing n total parts with
  | nil => simp [readBlobs, answers, totalOf, partsOf, htotal, eq_comm]
  | cons e es ih =>
    rw [answers_cons, List.forall_mem_cons, readBlobs]
    cases hserved : (gh.blob n e.url).served with
    | none =>
      have hjson : ∀ b, getJson e.url (gh.blob n e.url) ≠ .ok b := by
        intro b hb
        rw [getJson_eq_ok_iff, hserved] at hb
        cases hb
      cases hget : getJson e.url (gh.blob n e.url) with
      | error err => simp
      | ok b => exact absurd hget (hjson b)
    | some blob =>
      rw [getJson_eq_ok_iff.mpr hserved]
      cases hdecode : decodeBlob blob with
      | none =>
        have hcontent : contentOf (e, gh.blob n e.url) = none := by
          simp [contentOf, hserved, hdecode]
        simp only [hdecode]
        rw [ih htotal]
        simp [totalOf, partsOf, hcontent]
      | some content =>
        have hcontent : contentOf (e, gh.blob n e.url) = some content := by
          simp [contentOf, hserved, hdecode]
        have htotalOf : totalOf ((e, gh.blob n e.url) :: answers gh (n + 1) es) =
            content.length + totalOf (answers gh (n + 1) es) := by
          simp [totalOf, hcontent]
        have hpartsOf : partsOf ((e, gh.blob n e.url) :: answers gh (n + 1) es) =
            partOf e content :: partsOf (answers gh (n + 1) es) := by
          simp [partsOf, hcontent]
        simp only [hdecode]
        rw [htotalOf, hpartsOf]
        by_cases hfits : F.maxBytes < total + content.length
        · rw [if_pos hfits]
          have hover :
              ¬ total + (content.length + totalOf (answers gh (n + 1) es)) ≤ F.maxBytes := by
            omega
          simp [hover]
        · rw [if_neg hfits, ← Nat.add_assoc]
          constructor
          · intro h
            cases hread : readBlobs F gh label (n + 1) (total + content.length) es with
            | error err =>
              rw [hread] at h
              cases h
            | ok rest =>
              rw [hread] at h
              cases h
              obtain ⟨hall, hsum, rfl⟩ := (ih (not_lt.mp hfits)).mp hread
              exact ⟨⟨by simp, hall⟩, hsum, rfl⟩
          · rintro ⟨⟨-, hall⟩, hsum, rfl⟩
            rw [(ih (not_lt.mp hfits)).mpr ⟨hall, hsum, rfl⟩]

/-! ## What is returned -/

variable (F gh ref) in
/-- The listing that is audited, if there is one. -/
def audited : Option Listing :=
  if (parseGitHubSlug ref.repoUrl).isSome ∧ isCommitSha ref.commitHash = true then
    gh.tree.served.filter fun listing => !listing.truncated && listing.auditable ≠ []
  else none

variable (F gh) in
/-- The blobs that are audited, in the order of the requests, with the answers. -/
def audit (listing : Listing) : List (Entry × Response Json) :=
  answers gh 0 (sortByPath F listing.auditable)

theorem fetchSource_eq_ok_iff : fetchSource F gh ref = .ok text ↔
    ∃ listing, audited gh ref = some listing ∧ (∀ a ∈ audit F gh listing, a.2.served ≠ none) ∧
      totalOf (audit F gh listing) ≤ F.maxBytes ∧ partsOf (audit F gh listing) ≠ [] ∧
      text = (units "\n\n").intercalate (partsOf (audit F gh listing)) := by
  simp only [fetchSource, audited, audit]
  cases hslug : parseGitHubSlug ref.repoUrl with
  | none => simp
  | some slug =>
    cases hsha : isCommitSha ref.commitHash with
    | false => simp
    | true =>
      simp only [Bool.true_eq_false, if_false, Option.isSome_some, and_self, if_true]
      cases hserved : gh.tree.served with
      | none =>
        split
        · simp
        · rename_i listing hget
          rw [getJson_eq_ok_iff, hserved] at hget
          cases hget
      | some listing =>
        rw [getJson_eq_ok_iff.mpr hserved]
        cases htruncated : listing.truncated with
        | true => simp [Option.filter, htruncated]
        | false =>
          by_cases hnone : listing.auditable = []
          · simp [Option.filter, htruncated, hnone]
          · simp only [Option.filter, htruncated, hnone, Bool.false_eq_true, if_false, ne_eq,
              not_false_eq_true, decide_true, Bool.not_false, Bool.and_self, if_true,
              Option.some.injEq, exists_eq_left']
            constructor
            · intro h
              split at h
              · cases h
              · rename_i parts hread
                obtain ⟨hall, hsum, rfl⟩ := (readBlobs_eq_ok_iff (Nat.zero_le _)).mp hread
                rw [Nat.zero_add] at hsum
                split at h
                · cases h
                · rename_i hparts
                  cases h
                  exact ⟨hall, hsum, hparts, rfl⟩
            · rintro ⟨hall, hsum, hparts, rfl⟩
              rw [(readBlobs_eq_ok_iff (Nat.zero_le _)).mpr ⟨hall, by rwa [Nat.zero_add], rfl⟩]
              simp only [if_neg hparts]

variable (F) in
/-- `sortByPath` sorts the auditable blobs. -/
theorem sortByPath_perm (es : List Entry) : (sortByPath F es).Perm es :=
  List.perm_insertionSort _ es

variable (F) in
theorem sortByPath_sorted (es : List Entry) :
    (sortByPath F es).Pairwise fun a b => F.collation.le a.path b.path = true := by
  have htotal : Std.Total fun a b : Entry => F.collation.le a.path b.path = true :=
    ⟨fun a b => by simpa using F.collation.total a.path b.path⟩
  have htrans : IsTrans Entry fun a b => F.collation.le a.path b.path = true :=
    ⟨fun a b c => F.collation.trans a.path b.path c.path⟩
  exact List.pairwise_insertionSort (fun a b => F.collation.le a.path b.path = true) es

variable (F gh) in
/--
The text has these files, each with its full content: every auditable blob once, in the order of
paths, which is the order of the requests.
-/
structure Whole (listing : Listing) (files : List (Entry × Text)) (text : Text) : Prop where
  once : (files.map Prod.fst).Perm listing.auditable
  inOrder : files.Pairwise fun f g => F.collation.le f.1.path g.1.path = true
  asked : files.map Prod.fst = sortByPath F listing.auditable
  full : (audit F gh listing).map contentOf = files.map fun f => some f.2
  text : text = (units "\n\n").intercalate (files.map fun f => partOf f.1 f.2)

variable (F gh ref) in
/--
Of an audit whose blobs all are answered and do not exceed the limit, every blob is decoded, or
none is.
-/
def AllOrNone : Prop :=
  ∀ listing, audited gh ref = some listing → (∀ a ∈ audit F gh listing, a.2.served ≠ none) →
    totalOf (audit F gh listing) ≤ F.maxBytes → (∃ a ∈ audit F gh listing, contentOf a ≠ none) →
      ∀ a ∈ audit F gh listing, contentOf a ≠ none

theorem answers_map_fst (n : ℕ) (es : List Entry) : (answers gh n es).map Prod.fst = es := by
  simp only [answers, List.map_map, Function.comp_def]
  exact List.zipIdx_map_fst n es

/-- Where every blob is decoded, the text is whole. -/
theorem exists_whole (hall : ∀ a ∈ audit F gh listing, contentOf a ≠ none) :
    ∃ files, Whole F gh listing files
      ((units "\n\n").intercalate (partsOf (audit F gh listing))) := by
  have hcontent : ∀ a ∈ audit F gh listing, contentOf a = some ((contentOf a).getD []) := by
    intro a ha
    cases hc : contentOf a with
    | none => exact absurd hc (hall a ha)
    | some content => rfl
  have hfst : ((audit F gh listing).map fun a => (a.1, (contentOf a).getD [])).map Prod.fst =
      sortByPath F listing.auditable := by
    rw [List.map_map]
    exact answers_map_fst 0 _
  refine ⟨(audit F gh listing).map fun a => (a.1, (contentOf a).getD []), ?_, ?_, hfst, ?_, ?_⟩
  · rw [hfst]
    exact sortByPath_perm F _
  · have hsorted := sortByPath_sorted F listing.auditable
    rw [← hfst, List.pairwise_map] at hsorted
    exact hsorted
  · rw [List.map_map]
    exact List.map_congr_left hcontent
  · congr 1
    rw [List.map_map, partsOf,
      List.filterMap_congr fun a ha => congrArg (Option.map (partOf a.1)) (hcontent a ha)]
    exact congrFun (List.filterMap_eq_map (f := fun a => partOf a.1 ((contentOf a).getD []))) _

theorem parts_ne_nil_iff {as : List (Entry × Response Json)} :
    partsOf as ≠ [] ↔ ∃ a ∈ as, contentOf a ≠ none := by
  simp [partsOf, List.filterMap_eq_nil_iff]

theorem served_of_audited (h : audited gh ref = some listing) : gh.tree.served = some listing := by
  unfold audited at h
  split at h
  · exact (Option.filter_eq_some_iff.mp h).1
  · cases h

theorem le_total_units (a b : Text) : (decide (a ≤ b) || decide (b ≤ a)) = true := by
  simpa using le_total a b

theorem le_trans_units (a b c : Text) (hab : decide (a ≤ b) = true) (hbc : decide (b ≤ c) = true) :
    decide (a ≤ c) = true := by
  rw [decide_eq_true_eq] at hab hbc ⊢
  exact le_trans hab hbc

/-- Paths in the order of code units. -/
def byUnits : Collation := ⟨fun a b => decide (a ≤ b), le_total_units, le_trans_units⟩

def fetcher : GitHubSourceFetcher := ⟨2000000, byUnits⟩

def pushRef : PushRef where
  repoUrl := units "https://github.com/acme/widgets.git"
  commitHash := List.replicate 40 97

def blobEntry (path : String) : Entry := ⟨units path, units "blob", units "/blobs/" ++ units path⟩

def blobJson (encoding content : String) : Json :=
  .object [(units "encoding", .string (units encoding)), (units "content", .string (units content))]

/-- A commit with a file that is served as it should be, and one that is served without content. -/
def twoFiles : GitHub where
  tree := .answered 200 (some ⟨some [blobEntry "src/b.js", blobEntry "src/a.js"], false⟩)
  blob n _ := .answered 200 (some (if n = 0 then blobJson "base64" "Y29uc3QgYSA9IDE7\n"
    else blobJson "none" ""))

end AssureCode.SourceFetcher
