import AssureCode.Artifacts.Store

/-! # The latest bundle

What is downloaded is what was last uploaded as long as the local disk is left out. On disk it is
so for bodies that the text mode keeps, under keys that name files of their own, and beside S3 only
for keys of which S3 has no object: whichever of the two fails, the other has an older version or
none.
-/

namespace AssureCode.Artifacts

open Js Python Machine

/-! ## When the disk is used -/

/-- The upload goes to the local disk. -/
def Store.ToDisk (S : Store) (w : World) (c : Calls) (body : Text) : Prop :=
  match S.adapter with
  | .inMemory => False
  | .localFile => True
  | .s3 => S.allowLocalFallback = true ∧ ¬ (ensureClient w c && putObject S c body) = true

/-- The download is answered from the local disk. -/
def Store.FromDisk (S : Store) (w : World) (c : Calls) (key : Text) : Prop :=
  match S.adapter with
  | .inMemory => False
  | .localFile => True
  | .s3 => S.allowLocalFallback = true ∧
      ((ensureClient w c && c.getObject) = true → w.objects key = none)

/-- The file that the key names was last opened for `k`. -/
def Store.OpenedFor (S : Store) (d : Disk) (key k : Text) : Prop :=
  ∃ p content, (S.place key).file = some p ∧ d p = some (.file k content)

/--
What goes to the disk is kept by the text mode, under a key of which S3 has no object and whose
file is not another's; what comes from the disk has no object in S3, and its file is its own.
-/
def Store.Careful (S : Store) (s : Session) : Call → Prop
  | .upload b body c => S.ToDisk s.world c body →
      Encodable body ∧ carriageReturn ∉ body ∧ s.world.objects b.key = none ∧
        ∀ k, S.OpenedFor s.world.disk b.key k → k = b.key ∨ s.world.objects k ≠ none
  | .download b c => S.FromDisk s.world c b.key →
      s.world.objects b.key = none ∧ ∀ k, S.OpenedFor s.world.disk b.key k → k = b.key

/-- The body of the latest upload is where a careful download finds it. -/
structure Kept (S : Store) (s : Session) : Prop where
  data : S.adapter = .inMemory → s.world.data = s.latest
  stored : S.adapter ≠ .inMemory → ∀ {key body}, s.latest key = some body →
    s.world.objects key = some body ∨ s.world.objects key = none ∧ carriageReturn ∉ body ∧
      s.world.disk.lookup (S.place key) = some (.file key (S.platform.written body))
  unstored : ∀ {key}, s.latest key = none → s.world.objects key = none
  files : ∀ {p key content}, s.world.disk p = some (.file key content) → s.latest key ≠ none

variable {S : Store} {s s' t : Session} {w : World} {c : Calls} {b : Bundle} {d d' : Disk}
  {key body : Text} {h : List Call} {latest : Text → Option Text}

theorem kept_init (hs : S.process.init s) : Kept S s := by
  obtain ⟨hdata, hobjects, hfiles, -, hlatest⟩ := hs
  constructor
  · intro _
    funext key
    rw [hdata, hlatest]
  · intro _ key body hkey
    rw [hlatest] at hkey
    cases hkey
  · exact fun _ => hobjects _
  · exact fun hp => absurd hp (hfiles _ _ _)

/-! ## Uploads to the disk -/

/-- Nothing but directories is made, or the file that the key names is written. -/
theorem uploadLocal_cases {r : Except Raised Text} (henc : Encodable body)
    (hup : S.uploadLocal d key body = (r, d')) :
    (r.isOk = false ∧ Grown d d') ∨
    (r.isOk = true ∧ ∃ p d₁, Grown d d₁ ∧ (S.place key).file = some p ∧
      d₁ p ≠ some .directory ∧ (∀ q ∈ (S.place key).parents, d₁ q = some .directory) ∧
      d' = Function.update d₁ p (some (.file key (S.platform.written body)))) := by
  unfold Store.uploadLocal at hup
  split at hup
  · rename_i d₁ hmake
    cases hup
    exact .inl ⟨rfl, (grown_makedirs hmake).1⟩
  · rename_i d₁ hmake
    obtain ⟨hgrown, hparents⟩ := grown_makedirs hmake
    split at hup
    · cases hup
      exact .inl ⟨rfl, hgrown⟩
    · rename_i p hfile
      split at hup
      · rename_i hwrite
        cases hup
        rcases write_cases hwrite with ⟨-, rfl⟩ | ⟨-, hr, -⟩ | ⟨-, -, hnot, -⟩
        · exact .inl ⟨rfl, hgrown⟩
        · cases hr
        · exact absurd henc hnot
      · rename_i hwrite
        cases hup
        rcases write_cases hwrite with ⟨hr, -⟩ | ⟨hp, -, -, hd⟩ | ⟨-, hr, -⟩
        · cases hr
        · exact .inr ⟨rfl, p, d₁, hgrown, hfile, hp, hparents rfl, hd⟩
        · cases hr

/-- A file is still found after another one is written. -/
theorem lookup_update {d : Disk} {p : Path} {pl : Place} {e e' : Entry} (hp : d p ≠ some .directory)
    (hpl : d.lookup pl = some e) (hfile : pl.file ≠ some p) :
    Disk.lookup (Function.update d p (some e')) pl = some e := by
  unfold Disk.lookup at hpl
  split at hpl
  · rename_i hparents
    obtain ⟨q, hq, hd⟩ := Option.bind_eq_some_iff.mp hpl
    have hqp : q ≠ p := by
      rintro rfl
      exact hfile hq
    have hparents' : ∀ r ∈ pl.parents, Function.update d p (some e') r = some .directory := by
      intro r hr
      rw [Function.update_of_ne, hparents r hr]
      rintro rfl
      exact hp (hparents r hr)
    rw [Disk.lookup, if_pos hparents', hq, Option.bind_some, Function.update_of_ne hqp, hd]
  · cases hpl

/-- The file that was written is found. -/
theorem lookup_update_self {d : Disk} {p : Path} {pl : Place} {e : Entry}
    (hp : d p ≠ some .directory) (hparents : ∀ q ∈ pl.parents, d q = some .directory)
    (hfile : pl.file = some p) :
    Disk.lookup (Function.update d p (some e)) pl = some e := by
  have hparents' : ∀ q ∈ pl.parents, Function.update d p (some e) q = some .directory := by
    intro q hq
    rw [Function.update_of_ne, hparents q hq]
    rintro rfl
    exact hp (hparents q hq)
  rw [Disk.lookup, if_pos hparents', hfile, Option.bind_some, Function.update_self]

theorem latest_eq_none {k : Text} (hk : Function.update latest key (some body) k = none) :
    latest k = none := by
  by_cases hkey : k = key
  · subst hkey
    rw [Function.update_self] at hk
    cases hk
  · rwa [Function.update_of_ne hkey] at hk

/-- What the file of a key is found to hold is what it was last opened for. -/
theorem openedFor_of_lookup {k content : Text}
    (hlookup : d.lookup (S.place key) = some (.file k content)) : S.OpenedFor d key k := by
  unfold Disk.lookup at hlookup
  split at hlookup
  · obtain ⟨p, hp, hd⟩ := Option.bind_eq_some_iff.mp hlookup
    exact ⟨p, content, hp, hd⟩
  · cases hlookup

/-- A file that is written leaves those of other keys, unless these are in S3. -/
theorem stored_uploadLocal {d₁ : Disk} {p : Path} (hs : Kept S ⟨w, latest⟩)
    (hadapter : S.adapter ≠ .inMemory) (hcr : carriageReturn ∉ body)
    (hobjects : w.objects key = none)
    (hown : ∀ k, S.OpenedFor w.disk key k → k = key ∨ w.objects k ≠ none) (hgrown : Grown w.disk d₁)
    (hfile : (S.place key).file = some p) (hp : d₁ p ≠ some .directory)
    (hparents : ∀ q ∈ (S.place key).parents, d₁ q = some .directory) {k body' : Text}
    (hk : Function.update latest key (some body) k = some body') :
    w.objects k = some body' ∨ w.objects k = none ∧ carriageReturn ∉ body' ∧
      Disk.lookup (Function.update d₁ p (some (.file key (S.platform.written body)))) (S.place k) =
        some (.file k (S.platform.written body')) := by
  by_cases hkey : k = key
  · subst hkey
    rw [Function.update_self] at hk
    cases hk
    exact .inr ⟨hobjects, hcr, lookup_update_self hp hparents hfile⟩
  · rw [Function.update_of_ne hkey] at hk
    apply (hs.stored hadapter hk).imp_right
    rintro ⟨hnone, hplain, hlookup⟩
    have hother : (S.place k).file ≠ some p := by
      intro hsame
      obtain ⟨p', content, hp', hd⟩ := openedFor_of_lookup hlookup
      cases hsame.symm.trans hp'
      exact (hown k ⟨p, content, hfile, hd⟩).elim hkey fun hsome => hsome hnone
    exact ⟨hnone, hplain, lookup_update hp (hgrown.lookup hlookup) hother⟩

/-- An upload to the disk keeps what is stored. -/
theorem kept_uploadLocal {r : Except Raised Text} (connected : Bool) (hs : Kept S ⟨w, latest⟩)
    (hadapter : S.adapter ≠ .inMemory) (henc : Encodable body) (hcr : carriageReturn ∉ body)
    (hobjects : w.objects key = none)
    (hown : ∀ k, S.OpenedFor w.disk key k → k = key ∨ w.objects k ≠ none)
    (hup : S.uploadLocal w.disk key body = (r, d')) :
    Kept S
      { world := { w with disk := d', connected := connected }
        latest := if r.isOk then Function.update latest key (some body) else latest } := by
  rcases uploadLocal_cases henc hup with
    ⟨hr, hgrown⟩ | ⟨hr, p, d₁, hgrown, hfile, hp, hparents, rfl⟩
  · -- only directories were made
    rw [hr]
    constructor
    · exact hs.data
    · intro _ k body' hk
      apply (hs.stored hadapter hk).imp_right
      rintro ⟨hnone, hplain, hlookup⟩
      exact ⟨hnone, hplain, hgrown.lookup hlookup⟩
    · exact hs.unstored
    · exact fun hd => hs.files (hgrown.files hd)
  · rw [hr, if_pos rfl]
    constructor
    · exact fun hmemory => absurd hmemory hadapter
    · exact fun _ => stored_uploadLocal hs hadapter hcr hobjects hown hgrown hfile hp hparents
    · exact fun hk => hs.unstored (latest_eq_none hk)
    · intro q k content
        (hq : Function.update d₁ p (some (.file key (S.platform.written body))) q = _)
        (hk : Function.update latest key (some body) k = none)
      by_cases hqp : q = p
      · rw [hqp, Function.update_self] at hq
        cases hq
        rw [Function.update_self] at hk
        cases hk
      · rw [Function.update_of_ne hqp] at hq
        exact hs.files (hgrown.files hq) (latest_eq_none hk)

/-! ## A careful step -/

/-- A client that connects keeps what is stored. -/
theorem Kept.connect (hs : Kept S s) (connected : Bool) :
    Kept S { s with world := { s.world with connected := connected } } :=
  ⟨hs.data, hs.stored, hs.unstored, hs.files⟩

/-- An object that is put is stored. -/
theorem Kept.put (hs : Kept S s) (hadapter : S.adapter ≠ .inMemory) (key body : Text) :
    Kept S
      { world := { s.world with objects := Function.update s.world.objects key (some body) }
        latest := Function.update s.latest key (some body) } := by
  constructor
  · exact fun hmemory => absurd hmemory hadapter
  · intro _ k body' (hk : Function.update s.latest key (some body) k = some body')
    by_cases hkey : k = key
    · subst hkey
      rw [Function.update_self] at hk
      exact .inl ((Function.update_self ..).trans hk)
    · rw [Function.update_of_ne hkey] at hk
      simpa only [Function.update_of_ne hkey] using hs.stored hadapter hk
  · intro k (hk : Function.update s.latest key (some body) k = none)
    have hkey : k ≠ key := by
      rintro rfl
      rw [Function.update_self] at hk
      cases hk
    exact (Function.update_of_ne hkey ..).trans (hs.unstored (latest_eq_none hk))
  · exact fun hp hk => hs.files hp (latest_eq_none hk)

/-- A body that is kept in memory is stored. -/
theorem Kept.remember (hs : Kept S s) (hadapter : S.adapter = .inMemory) (key body : Text) :
    Kept S
      { world := { s.world with data := Function.update s.world.data key (some body) }
        latest := Function.update s.latest key (some body) } := by
  constructor
  · intro _
    exact congrArg (Function.update · key (some body)) (hs.data hadapter)
  · exact fun hother => absurd hadapter hother
  · exact fun hk => hs.unstored (latest_eq_none hk)
  · exact fun hp hk => hs.files hp (latest_eq_none hk)

theorem kept_upload (hs : Kept S s) (hcareful : S.Careful s (.upload b body c))
    (hst : S.process.step s (.upload b body c) = some s') : Kept S s' := by
  simp only [Store.process, Store.upload, Option.some.injEq] at hst
  subst hst
  rw [Store.Careful, Store.ToDisk] at hcareful
  cases hadapter : S.adapter with
  | inMemory => exact hs.remember hadapter b.key body
  | localFile =>
    rw [hadapter] at hcareful
    obtain ⟨henc, hcr, hobjects, hown⟩ := hcareful trivial
    exact kept_uploadLocal s.world.connected hs (by simp [hadapter]) henc hcr hobjects hown rfl
  | s3 =>
    have hother : S.adapter ≠ .inMemory := by simp [hadapter]
    rw [hadapter] at hcareful
    by_cases hput : (ensureClient s.world c && putObject S c body) = true
    · simp only [hput, if_true]
      exact (hs.connect (ensureClient s.world c)).put hother b.key body
    · by_cases hallow : S.allowLocalFallback = true
      · obtain ⟨henc, hcr, hobjects, hown⟩ := hcareful ⟨hallow, hput⟩
        simp only [hput, hallow, if_true]
        exact kept_uploadLocal (ensureClient s.world c) hs hother henc hcr hobjects hown rfl
      · simp only [hput, hallow]
        exact hs.connect (ensureClient s.world c)

/-- Looking for a bundle changes nothing that is stored. -/
theorem kept_download (hs : Kept S s) (hst : S.process.step s (.download b c) = some s') :
    Kept S s' := by
  simp only [Store.process, Store.download, Option.some.injEq] at hst
  subst hst
  cases S.adapter with
  | inMemory => exact hs
  | localFile => exact hs
  | s3 =>
    dsimp only
    split
    · exact hs.connect _
    · split
      · exact hs.connect _
      · exact hs.connect _

theorem kept_step {a : Call} (hs : Kept S s) (hcareful : S.Careful s a)
    (hst : S.process.step s a = some s') : Kept S s' := by
  cases a with
  | upload b body c => exact kept_upload hs hcareful hst
  | download b c => exact kept_download hs hst

/-- What the disk gives back for a key without an object is its latest body. -/
theorem downloadLocal_latest {found : Option Text} (hs : Kept S s)
    (hadapter : S.adapter ≠ .inMemory)
    (hobjects : s.world.objects key = none)
    (hown : ∀ k, S.OpenedFor s.world.disk key k → k = key)
    (hr : S.downloadLocal s.world.disk key = .ok found) : found = s.latest key := by
  unfold Store.downloadLocal at hr
  cases hlatest : s.latest key with
  | none =>
    split at hr
    · cases hr
      rfl
    · cases hr
    · rename_i k content hlookup
      obtain rfl : k = key := hown k (openedFor_of_lookup hlookup)
      obtain ⟨p, content', -, hd⟩ := openedFor_of_lookup hlookup
      exact absurd hlatest (hs.files hd)
  | some body =>
    rcases hs.stored hadapter hlatest with hsome | ⟨-, hcr, hlookup⟩
    · rw [hobjects] at hsome
      cases hsome
    · rw [hlookup] at hr
      cases hr
      exact congrArg some (universal_written_iff.mpr hcr)

theorem givesLatest_of_careful {a : Call} (hs : Kept S s) (hcareful : S.Careful s a) :
    S.GivesLatest s a := by
  cases a with
  | upload b body c => trivial
  | download b c =>
    intro found hr
    rw [Store.Careful, Store.FromDisk] at hcareful
    unfold Store.download at hr
    cases hadapter : S.adapter with
    | inMemory =>
      simp only [hadapter, Except.ok.injEq] at hr
      rw [← hr, hs.data hadapter]
    | localFile =>
      rw [hadapter] at hcareful
      simp only [hadapter] at hr
      obtain ⟨hobjects, hown⟩ := hcareful trivial
      exact downloadLocal_latest hs (by simp [hadapter]) hobjects hown hr
    | s3 =>
      have hother : S.adapter ≠ .inMemory := by simp [hadapter]
      rw [hadapter] at hcareful
      simp only [hadapter] at hr
      split at hr
      · rename_i body hget
        -- S3 answers with the object
        have hobject : s.world.objects b.key = some body := by
          split at hget
          · exact hget
          · cases hget
        cases hr
        cases hlatest : s.latest b.key with
        | none =>
          rw [hs.unstored hlatest] at hobject
          cases hobject
        | some latest =>
          rcases hs.stored hother hlatest with hsome | ⟨hnone, -⟩
          · exact hobject.symm.trans hsome
          · rw [hnone] at hobject
            cases hobject
      · rename_i hget
        by_cases hallow : S.allowLocalFallback = true
        · have hdisk : (ensureClient s.world c && c.getObject) = true →
              s.world.objects b.key = none := fun hserved => by rwa [if_pos hserved] at hget
          obtain ⟨hobjects, hown⟩ := hcareful ⟨hallow, hdisk⟩
          rw [if_pos hallow] at hr
          exact downloadLocal_latest hs hother hobjects hown hr
        · rw [if_neg hallow] at hr
          cases hr

/-! ## Runs -/

theorem steps_giveLatest {K : Session → Call → Prop} (hK : ∀ s a, K s a → S.Careful s a)
    (hrun : S.process.Run K s h t) (hs : S.process.init s) :
    ∀ x ∈ S.process.steps s h, S.GivesLatest x.1 x.2.1 :=
  hrun.forall_steps (I := Kept S) (fun _ _ _ hs hk hst => kept_step hs (hK _ _ hk) hst)
    (fun _ _ _ hs hk _ => givesLatest_of_careful hs (hK _ _ hk)) (kept_init hs)

/-- In a run of careful calls, every download that returns gives the latest body. -/
theorem downloads_giveLatest (hrun : S.process.Run S.Careful s h t) (hs : S.process.init s) :
    ∀ x ∈ S.process.steps s h, S.GivesLatest x.1 x.2.1 :=
  steps_giveLatest (fun _ _ hcareful => hcareful) hrun hs

/-- An adapter that never turns to the disk gives the latest body in every run. -/
theorem diskless_giveLatest
    (hS : S.adapter = .inMemory ∨ S.adapter = .s3 ∧ S.allowLocalFallback = false)
    (hrun : S.process.Run Any s h t) (hs : S.process.init s) :
    ∀ x ∈ S.process.steps s h, S.GivesLatest x.1 x.2.1 := by
  apply steps_giveLatest _ hrun hs
  rintro s (⟨b, body, c⟩ | ⟨b, c⟩) - hdisk
  · rcases hS with hadapter | ⟨hadapter, hallow⟩
    · simp [Store.ToDisk, hadapter] at hdisk
    · simp [Store.ToDisk, hadapter, hallow] at hdisk
  · rcases hS with hadapter | ⟨hadapter, hallow⟩
    · simp [Store.FromDisk, hadapter] at hdisk
    · simp [Store.FromDisk, hadapter, hallow] at hdisk

/-! ## An outage between two versions -/

/-- A name without dots or empty parts, below a directory that is there. -/
def plainPlace (key : Text) : Place where
  parents := (List.range key.length).filterMap fun n =>
    if key[n]? = some slash then some (key.take n) else none
  file := some key

def devStore (adapter : Adapter) : Store where
  adapter := adapter
  endpointUrl := text "http://localhost:4566"
  bucket := text "artifacts"
  maxRetries := 3
  allowLocalFallback := true
  fallbackDir := text "/app/storage_fallback"
  platform := .posix
  place := plainPlace

theorem minLength_c1 : 1 ≤ (text "c-1").length := by decide

theorem maxLength_c1 : (text "c-1").length ≤ 128 := by decide

def bundle : Bundle := ⟨text "c-1", .jest, minLength_c1, maxLength_c1⟩

def nothingStored : Session :=
  ⟨⟨fun _ => none, fun _ => none, fun _ => none, false⟩, fun _ => none⟩

def served : Calls := ⟨.found, true, fun _ => true, true⟩

/-- S3 takes no object, and serves those it has. -/
def refused : Calls := ⟨.found, true, fun _ => false, true⟩

def unreachable : Calls := ⟨.unreachable, false, fun _ => false, false⟩

def firstSuite : Text := text "test('a', () => 1);\n"

def secondSuite : Text := text "test('a', () => 2);\r\n"

theorem init_nothingStored : S.process.init nothingStored := by
  simp [Store.process, nothingStored]

theorem downloads_giveLatest_offline :
    (devStore .s3).process.init nothingStored ∧
    ∀ x ∈ (devStore .s3).process.steps nothingStored
      [.upload bundle firstSuite unreachable, .download bundle unreachable],
      (devStore .s3).GivesLatest x.1 x.2.1 := by
  refine ⟨init_nothingStored, ?_⟩
  apply downloads_giveLatest (.cons _ rfl (.cons _ rfl (.nil _))) init_nothingStored
  · intro _
    refine ⟨by decide, by decide, rfl, ?_⟩
    rintro k ⟨p, content, -, hd⟩
    cases hd
  · intro _
    refine ⟨rfl, ?_⟩
    rintro k ⟨p, content, hp, hd⟩
    cases hp
    have hfile :
        (((devStore .s3).upload nothingStored.world unreachable bundle.key firstSuite).2.disk
          bundle.key) = some (.file bundle.key firstSuite) := by decide +kernel
    cases hfile.symm.trans hd
    rfl

/--
The version before an outage is downloaded after it, and a carriage return is lost on disk.
-/
theorem older_version_downloaded :
    (devStore .s3).process.init nothingStored ∧ (devStore .localFile).process.init nothingStored ∧
    (¬ ∀ x ∈ (devStore .s3).process.steps nothingStored
      [.upload bundle firstSuite served, .upload bundle secondSuite refused,
        .download bundle served], (devStore .s3).GivesLatest x.1 x.2.1) ∧
    ¬ ∀ x ∈ (devStore .localFile).process.steps nothingStored
      [.upload bundle secondSuite served, .download bundle served],
      (devStore .localFile).GivesLatest x.1 x.2.1 := by
  refine ⟨init_nothingStored, init_nothingStored, ?_, ?_⟩
  · intro hall
    have hthird := hall _ (List.mem_cons_of_mem _ (List.mem_cons_of_mem _ List.mem_cons_self))
    have hlatest := hthird (some firstSuite) (by decide +kernel)
    revert hlatest
    decide +kernel
  · intro hall
    have hsecond := hall _ (List.mem_cons_of_mem _ List.mem_cons_self)
    have hlatest := hsecond (some (text "test('a', () => 2);\n")) (by decide +kernel)
    revert hlatest
    decide +kernel

end AssureCode.Artifacts
