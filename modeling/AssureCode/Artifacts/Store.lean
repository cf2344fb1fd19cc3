import Mathlib.Tactic.Common
import AssureCode.Artifacts.Disk
import AssureCode.Transition.Run

/-! # The artifact store

Test bundles are kept in memory, on local disk or in S3. Where it may, the S3 adapter turns to the
local disk, per call, when S3 fails it.
-/

namespace AssureCode.Artifacts

open Js Python Machine

/-! ## Keys -/

inductive Framework
  | jest
  | cypress
  deriving DecidableEq

def Framework.name : Framework → Text
  | .jest => text "jest"
  | .cypress => text "cypress"

/-- What a test bundle is generated for. -/
structure Bundle where
  contractId : Text
  framework : Framework
  minLength : 1 ≤ contractId.length
  maxLength : contractId.length ≤ 128

/-- The key that `generate_tests` and `fetch_generated_tests` build. -/
def Bundle.key (b : Bundle) : Text :=
  text "contracts/" ++ b.contractId ++ text "/generated-tests/" ++ b.framework.name ++
    text "/tests.js"

/-! ## Adapters -/

inductive Adapter
  | inMemory
  | localFile
  | s3
  deriving DecidableEq

/-- An adapter with its settings, on a platform that resolves names. -/
structure Store where
  adapter : Adapter
  endpointUrl : Text
  bucket : Text
  maxRetries : ℕ
  allowLocalFallback : Bool
  fallbackDir : Text
  platform : Platform
  /-- What the joined path of a key leads to. -/
  place : Text → Place

/-- What the process and the services around it hold. -/
structure World where
  data : Text → Option Text
  objects : Text → Option Text
  disk : Disk
  connected : Bool

/-- The answer to `head_bucket`. -/
inductive Head
  | found
  | clientError (code : Option String)
  | unreachable
  deriving DecidableEq

/-- Which calls S3 would serve during one operation: a put by its attempt. -/
structure Calls where
  head : Head
  createBucket : Bool
  putObject : ℕ → Bool
  getObject : Bool

/-- `_refuse_fallback` -/
def Store.refuseFallback (S : Store) (operation key : Text) : Raised :=
  .storeUnavailable <|
    text "S3 " ++ operation ++ text " failed for '" ++ key ++ text "' against bucket '" ++
      S.bucket ++ text "' at " ++ S.endpointUrl ++
      text (", and local disk fallback is disabled. Writing to a pod's ephemeral filesystem " ++
        "would lose the artifact silently. Fix the S3 configuration, or set " ++
        "ALLOW_LOCAL_ARTIFACT_FALLBACK=true to accept that risk.")

/-- `_ensure_client`: a client, once there, is kept, and a bucket that is missing is created. -/
def ensureClient (w : World) (c : Calls) : Bool :=
  w.connected ||
    match c.head with
    | .found => true
    | .clientError code => (code = some "404" || code = some "NoSuchBucket") && c.createBucket
    | .unreachable => false

/-- The loop over the attempts to put an object; a body that is not encoded fails each of them. -/
def putObject (S : Store) (c : Calls) (body : Text) : Bool :=
  (List.range' 1 S.maxRetries).any fun attempt => Encodable body && c.putObject attempt

def slash : ℕ := 47

def backslash : ℕ := 92

/-- `os.path.join(fallback_dir, key)` -/
def Store.filePath (S : Store) (key : Text) : Text :=
  match S.platform with
  | .posix =>
    if S.fallbackDir.getLast? = some slash then S.fallbackDir ++ key
    else S.fallbackDir ++ slash :: key
  | .windows =>
    if S.fallbackDir.getLast? = some slash ∨ S.fallbackDir.getLast? = some backslash then
      S.fallbackDir ++ key
    else S.fallbackDir ++ backslash :: key

/-- The URL of a file, with the separators of either platform as slashes. -/
def Store.fileUrl (S : Store) (key : Text) : Text :=
  text "file://" ++ (S.filePath key).map fun u => if u = backslash then slash else u

/-- `LocalFileArtifactStore.upload` -/
def Store.uploadLocal (S : Store) (d : Disk) (key body : Text) : Except Raised Text × Disk :=
  match d.makedirs (S.place key).parents with
  | (.error e, d) => (.error e, d)
  | (.ok _, d) =>
    match (S.place key).file with
    | none => (.error .osError, d)
    | some p =>
      match d.write S.platform p key body with
      | (.error e, d) => (.error e, d)
      | (.ok _, d) => (.ok (S.fileUrl key), d)

/-- `LocalFileArtifactStore.download` -/
def Store.downloadLocal (S : Store) (d : Disk) (key : Text) : Except Raised (Option Text) :=
  match d.lookup (S.place key) with
  | none => .ok none
  | some .directory => .error .osError
  | some (.file _ content) => .ok (some (universal content))

def Store.upload (S : Store) (w : World) (c : Calls) (key body : Text) :
    Except Raised Text × World :=
  match S.adapter with
  | .inMemory => (.ok (text "in-memory://" ++ key), { w with
      data := Function.update w.data key (some body) })
  | .localFile =>
    let r := S.uploadLocal w.disk key body
    (r.1, { w with disk := r.2 })
  | .s3 =>
    let w := { w with connected := ensureClient w c }
    if w.connected && putObject S c body then
      (.ok (text "s3://" ++ S.bucket ++ text "/" ++ key), { w with
        objects := Function.update w.objects key (some body) })
    else if S.allowLocalFallback then
      let r := S.uploadLocal w.disk key body
      (r.1, { w with disk := r.2 })
    else
      (.error (S.refuseFallback (if w.connected then text "upload" else text "connect") key), w)

def Store.download (S : Store) (w : World) (c : Calls) (key : Text) :
    Except Raised (Option Text) × World :=
  match S.adapter with
  | .inMemory => (.ok (w.data key), w)
  | .localFile => (S.downloadLocal w.disk key, w)
  | .s3 =>
    let w := { w with connected := ensureClient w c }
    match if w.connected && c.getObject then w.objects key else none with
    | some body => (.ok (some body), w)
    | none =>
      if S.allowLocalFallback then (S.downloadLocal w.disk key, w)
      else
        (.error (S.refuseFallback (if w.connected then text "download" else text "connect") key), w)

/-! ## One process -/

inductive Call
  | upload (b : Bundle) (body : Text) (c : Calls)
  | download (b : Bundle) (c : Calls)

/-- A process, with the body of the latest upload of each key that returned. -/
structure Session where
  world : World
  latest : Text → Option Text

/-- The calls of one process, which starts with nothing stored. -/
def Store.process (S : Store) : Machine Session Call where
  init s :=
    (∀ key, s.world.data key = none) ∧ (∀ key, s.world.objects key = none) ∧
      (∀ p key content, s.world.disk p ≠ some (.file key content)) ∧
      s.world.connected = false ∧ ∀ key, s.latest key = none
  step s
    | .upload b body c =>
      let r := S.upload s.world c b.key body
      some
        { world := r.2
          latest := if r.1.isOk then Function.update s.latest b.key (some body) else s.latest }
    | .download b c => some { s with world := (S.download s.world c b.key).2 }

/-- A download that returns gives back what was last stored. -/
def Store.GivesLatest (S : Store) (s : Session) : Call → Prop
  | .upload .. => True
  | .download b c =>
    ∀ body, (S.download s.world c b.key).1 = .ok body → body = s.latest b.key

end AssureCode.Artifacts
