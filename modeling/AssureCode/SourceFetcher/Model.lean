import Mathlib.Data.List.Sort
import AssureCode.Js.Buffer
import AssureCode.Js.Json

/-! # Fetching the pushed source

The tree of a commit is listed, and each of its auditable blobs is asked for in the order of paths
and put below a banner with its path.
-/

namespace AssureCode.SourceFetcher

open Js

/-! ## Paths, repositories and commits -/

/-- `t.includes(s)` -/
def includes (t s : Text) : Bool := t.tails.any s.isPrefixOf

/-- `t.endsWith(s)` -/
def endsWith (t s : Text) : Bool := s.isSuffixOf t

def auditableExtensions : List String := [".js", ".jsx", ".mjs", ".cjs", ".ts", ".tsx"]

def excludedSegments : List String :=
  ["node_modules/", ".git/", "dist/", "build/", "coverage/", ".next/"]

/-- What `/(^|\/)[^/]*\.(test|spec)\.[jt]sx?$/` ends with; what stands before is free. -/
def testEndings : List String :=
  [".test.js", ".test.jsx", ".test.ts", ".test.tsx",
    ".spec.js", ".spec.jsx", ".spec.ts", ".spec.tsx"]

def isAuditableSourcePath (path : Text) : Bool :=
  if excludedSegments.any fun segment => includes path (units segment) then false
  else if endsWith path (units ".d.ts") then false
  else if testEndings.any fun ending => endsWith path (units ending) then false
  else auditableExtensions.any fun ext => endsWith path (units ext)

def lowerAscii (u : ℕ) : ℕ := if 65 ≤ u ∧ u ≤ 90 then u + 32 else u

/-- What follows a literal of a pattern that ignores case. -/
def after (literal : String) (t : Text) : Option Text :=
  let l := units literal
  if (t.take l.length).map lowerAscii = l then some (t.drop l.length) else none

/-- `[\w.-]` -/
def isSlugUnit (u : ℕ) : Bool :=
  (65 ≤ u && u ≤ 90) || (97 ≤ u && u ≤ 122) || (48 ≤ u && u ≤ 57) || u == 95 || u == 46 || u == 45

/-- The repository's name is as short as the rest of the pattern admits. -/
def withoutGit (repo : Text) : Text :=
  let stem := repo.take (repo.length - 4)
  if stem ≠ [] ∧ (repo.drop (repo.length - 4)).map lowerAscii = units ".git" then stem else repo

def parseGitHubSlug (repoUrl : Text) : Option Text := do
  let host ← after "https://" repoUrl <|> after "http://" repoUrl <|> after "git@" repoUrl
  let path ← after "github.com" ((after "www." host).getD host)
  let names ← after "/" path <|> after ":" path
  let owner := names.takeWhile isSlugUnit
  let rest ← after "/" (names.dropWhile isSlugUnit)
  let repo := withoutGit (rest.takeWhile isSlugUnit)
  let ending := rest.dropWhile isSlugUnit
  guard (owner ≠ [] ∧ repo ≠ [] ∧ (ending = [] ∨ ending = units "/"))
  guard (owner ≠ units ".." ∧ repo ≠ units "..")
  return owner ++ units "/" ++ repo

def isCommitSha (value : Text) : Bool :=
  decide (7 ≤ value.length ∧ value.length ≤ 40) && value.all fun u => (Json.hexValue u).isSome

/-! ## What GitHub answers -/

structure PushRef where
  repoUrl : Text
  commitHash : Text

/-- An entry of a tree. -/
structure Entry where
  path : Text
  type : Text
  url : Text
  deriving DecidableEq

/-- A listing; its `tree` may be missing. -/
structure Listing where
  tree : Option (List Entry)
  truncated : Bool

/-- An answer to a request, with no body when that is not JSON. -/
inductive Response (β : Type)
  | unreachable (message : Text)
  | answered (status : ℕ) (body : Option β)

/-- The answers for one commit: to the request for its tree, and to each one for a blob. -/
structure GitHub where
  tree : Response Listing
  blob : ℕ → Text → Response Json

/-- The body of an answer that is ok. -/
def Response.served {β : Type} : Response β → Option β
  | .unreachable _ => none
  | .answered status body => if 200 ≤ status ∧ status < 300 then body else none

structure SourceUnavailableError where
  message : Text
  deriving DecidableEq

def getJson {β : Type} (url : Text) : Response β → Except SourceUnavailableError β
  | .unreachable message =>
    .error ⟨units "could not reach GitHub for " ++ url ++ units ": " ++ message⟩
  | .answered status body =>
    if status = 404 then
      .error ⟨units "GitHub returned 404 for " ++ url ++
        units (" — the commit may not exist, or the repository is " ++
          "private and no GITHUB_TOKEN is configured")⟩
    else if status = 403 then
      .error ⟨units "GitHub returned 403 for " ++ url ++
        units " — unauthenticated requests are limited to 60/hour; set GITHUB_TOKEN"⟩
    else if ¬ (200 ≤ status ∧ status < 300) then
      .error ⟨units "GitHub returned HTTP " ++ units (toString status) ++ units " for " ++ url⟩
    else
      match body with
      | none => .error ⟨units "GitHub returned a non-JSON body for " ++ url⟩
      | some body => .ok body

/-- The content of a blob, or `none` if it is not decodable text. -/
def decodeBlob (blob : Json) : Option Text :=
  match blob.get (units "content") with
  | some (.string content) =>
    match blob.get (units "encoding") with
    | some (.string encoding) =>
      if encoding = units "base64" then some (ofUtf8 (fromBase64 content))
      else if encoding = units "utf-8" then some content
      else none
    | _ => none
  | _ => none

/-! ## The fetcher -/

/-- `a.localeCompare(b) <= 0` -/
structure Collation where
  le : Text → Text → Bool
  total : ∀ a b, (le a b || le b a) = true
  trans : ∀ a b c, le a b = true → le b c = true → le a c = true

structure GitHubSourceFetcher where
  maxBytes : ℕ
  collation : Collation

/-- The file of a blob below its banner. -/
def partOf (e : Entry) (content : Text) : Text :=
  units "// ==== " ++ e.path ++ units " ====\n" ++ content

/-- The auditable blobs of a listing. -/
def Listing.auditable (listing : Listing) : List Entry :=
  (listing.tree.getD []).filter fun e => e.type = units "blob" && isAuditableSourcePath e.path

variable (F : GitHubSourceFetcher) (gh : GitHub)

/-- `sources.sort(…)` -/
def sortByPath (sources : List Entry) : List Entry :=
  sources.insertionSort fun a b => F.collation.le a.path b.path = true

/-- The loop over the blobs, with the number of requests that were made and the total so far. -/
def readBlobs (label : Text) (n total : ℕ) : List Entry → Except SourceUnavailableError (List Text)
  | [] => .ok []
  | e :: es =>
    match getJson e.url (gh.blob n e.url) with
    | .error err => .error err
    | .ok blob =>
      match decodeBlob blob with
      | none => readBlobs label (n + 1) total es
      | some content =>
        if F.maxBytes < total + content.length then
          .error ⟨units "source for " ++ label ++ units " exceeds the " ++
            units (toString F.maxBytes) ++ units "-byte audit limit"⟩
        else
          match readBlobs label (n + 1) (total + content.length) es with
          | .error err => .error err
          | .ok parts => .ok (partOf e content :: parts)

def fetchSource (ref : PushRef) : Except SourceUnavailableError Text :=
  match parseGitHubSlug ref.repoUrl with
  | none =>
    .error ⟨units "not a recognisable GitHub repository URL: " ++
      if ref.repoUrl = [] then units "(empty)" else ref.repoUrl⟩
  | some slug =>
    if isCommitSha ref.commitHash = false then
      .error ⟨units "refusing to fetch source for a non-commit reference (" ++
        (if ref.commitHash = [] then units "(empty)" else ref.commitHash) ++
        units "); the audit must be pinned to the exact commit the webhook reported"⟩
    else
      let label := slug ++ units "@" ++ ref.commitHash
      let url := units "https://api.github.com/repos/" ++ slug ++ units "/git/trees/" ++
        ref.commitHash ++ units "?recursive=1"
      match getJson url gh.tree with
      | .error err => .error err
      | .ok listing =>
        if listing.truncated then
          .error ⟨units "the tree for " ++ label ++ units (" is too large for a single listing; " ++
            "a partial audit would misreport coverage")⟩
        else if listing.auditable = [] then
          .error ⟨units "no auditable source files found in " ++ label⟩
        else
          match readBlobs F gh label 0 0 (sortByPath F listing.auditable) with
          | .error err => .error err
          | .ok parts =>
            if parts = [] then
              .error ⟨units "every source file in " ++ label ++ units " was unreadable"⟩
            else .ok ((units "\n\n").intercalate parts)

end AssureCode.SourceFetcher
