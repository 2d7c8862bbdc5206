import Walrust.Watch.Cache
import Walrust.Legacy.FoldRestore

/-!
# `Walrust.Watch.Uploads` — the cache and everyone who uses it

The watcher writes files into the cache, adds them to the manifest and tells the uploader; from time to time it
cleans up. The uploader first resumes what was pending when it started and then takes what it is told, several
uploads at a time. All of them change the manifest under one lock and save it. The process may die between any two
steps, and the next one opens the cache again.

Opening refuses a manifest with a failed upload that is also marked uploaded, or whose entry or file is gone. A TXID
that was cached before the uploader looked at what is pending is queued twice, and the second upload may fail after
the first has succeeded.

* `UploadSystem.act` — the steps, one for each stretch under the lock;
* `Retryable`, `newAt_ok_iff` — what opening asks of a failed upload;
* `Careful` — failures are recorded only for uploads that are still open, and cleanup spares what the saved manifest
  lists as failed;
* `cache_reopens` — in every run of such steps, the cache can be opened again.
-/

namespace Walrust
namespace Watch

open Legacy Lib List

variable {c : LocalCache} {now : Int} {m : CacheManifest} {files : Store Nat Bytes} {txid : Nat}

/-! ## The system -/

/-- Where the watcher stands with a file. -/
inductive Writer where
  | idle
  /-- On disk, not in the manifest. -/
  | written (txid : Nat) (bytes : Bytes) (isSnapshot : Bool)
  /-- In the manifest, the uploader not told. -/
  | cached (txid : Nat)
  deriving DecidableEq

inductive Stage where
  | queued
  /-- Read and verified; the put is under way. -/
  | putting
  deriving DecidableEq

structure UploadTask where
  txid : Nat
  stage : Stage
  deriving DecidableEq

structure UploadSystem where
  cache : LocalCache
  opened : Bool
  writer : Writer
  /-- What the uploader has been told. -/
  channel : List Nat
  /-- What the uploader has yet to resume; none before it has looked. -/
  resume : Option (List Nat)
  tasks : List UploadTask

def UploadSystem.start : UploadSystem := ⟨⟨.empty, .default, none⟩, false, .idle, [], none, []⟩

/-- How a cleanup ends. -/
inductive CleanupEnd where
  /-- All deleted, and the manifest saved or not. -/
  | finished (stored : Bool)
  /-- A file could not be removed; its entry is out of the manifest in memory, which is not saved. -/
  | removeFailed
  | crashed
  deriving DecidableEq

inductive CacheAction where
  | openCache (stored : Bool)
  | writeFile (txid : Nat) (bytes : Bytes) (isSnapshot : Bool)
  | addEntry (now : Int) (stored : Bool)
  | announce
  | startUploader
  | resumeNext
  | receive
  | readFile (task : Nat) (stored : Bool)
  | putDone (task : Nat) (now : Int) (stored : Bool)
  | putFailed (task : Nat) (stored : Bool)
  | cleanup (now retention : Int) (maxCacheSize done : Nat) (outcome : CleanupEnd)
  | crash

/-- The manifest is changed in memory and saved, unless the save fails. -/
def LocalCache.update (c : LocalCache) (stored : Bool) (m : CacheManifest) : LocalCache :=
  { c with manifest := m, saved := if stored then some m else c.saved }

/-- What is left when the process dies. -/
def UploadSystem.crashed (s : UploadSystem) : UploadSystem :=
  ⟨{ s.cache with manifest := .default }, false, .idle, [], none, []⟩

/-- A task ends with a change of the manifest. -/
def UploadSystem.endTask (s : UploadSystem) (task : Nat) (stored : Bool) (m : CacheManifest) : UploadSystem :=
  { s with cache := s.cache.update stored m, tasks := s.tasks.eraseIdx task }

/-- A cleanup that has deleted the first files of its list. -/
def LocalCache.cleaned (c : LocalCache) (txids : List Nat) : LocalCache := txids.foldl LocalCache.evict c

/-- `cleanup` that ends after `done` files of its list; none if it does not end that way. -/
def LocalCache.cleanup (c : LocalCache) (now retention : Int) (maxCacheSize done : Nat) (outcome : CleanupEnd) :
    Option LocalCache :=
  let txids := c.manifest.cleanup now retention maxCacheSize
  let left := c.cleaned (txids.take done)
  match outcome, txids.drop done with
  | .finished stored, [] => some (left.update stored left.manifest)
  | .removeFailed, txid :: _ => some { left with manifest := left.manifest.forgetEntry txid }
  | .crashed, _ => some left
  | _, _ => none

/-- A step; none where it cannot be taken. At most `limit` uploads run at a time. -/
def UploadSystem.act (ltx : LtxCrate) (limit : Nat) (s : UploadSystem) : CacheAction → Option UploadSystem
  | .openCache stored =>
    if s.opened then none
    else
      match s.cache.newAt with
      | .error _ => some s
      | .ok m =>
        if s.cache.saved.any (·.failed = []) then
          some { s with cache := { s.cache with manifest := m }, opened := true }
        else if stored then some { s with cache := s.cache.update true m, opened := true }
        else some s
  | .writeFile txid bytes isSnapshot =>
    if s.opened ∧ s.writer = .idle then
      some { s with
        cache := { s.cache with files := s.cache.files.put txid bytes }
        writer := .written txid bytes isSnapshot }
    else none
  | .addEntry now stored =>
    match s.writer with
    | .written txid bytes isSnapshot =>
      let range := ltxTxidRange ltx txid bytes
      some { s with
        cache := s.cache.update stored
          (s.cache.manifest.addEntry txid ⟨bytes.length, now, false, none, isSnapshot, range.1, range.2⟩)
        writer := if stored then .cached txid else .idle }
    | _ => none
  | .announce =>
    match s.writer with
    | .cached txid => some { s with channel := s.channel ++ [txid], writer := .idle }
    | _ => none
  | .startUploader =>
    if s.opened ∧ s.resume = none then some { s with resume := some s.cache.manifest.pendingUploads } else none
  | .resumeNext =>
    match s.resume with
    | some (txid :: rest) =>
      if s.tasks.length < limit then some { s with resume := some rest, tasks := s.tasks ++ [⟨txid, .queued⟩] }
      else none
    | _ => none
  | .receive =>
    match s.resume, s.channel with
    | some [], txid :: rest =>
      if s.tasks.length < limit then some { s with channel := rest, tasks := s.tasks ++ [⟨txid, .queued⟩] }
      else none
    | _, _ => none
  | .readFile task stored =>
    match s.tasks[task]? with
    | some ⟨txid, .queued⟩ =>
      match s.cache.files.get txid with
      | none => some { s with tasks := s.tasks.eraseIdx task }
      | some bytes =>
        match verifyLtxWithResult ltx bytes with
        | .error _ => some (s.endTask task stored (s.cache.manifest.markFailed txid))
        | .ok _ => some { s with tasks := s.tasks.set task ⟨txid, .putting⟩ }
    | _ => none
  | .putDone task now stored =>
    match s.tasks[task]? with
    | some ⟨txid, .putting⟩ => some (s.endTask task stored (s.cache.manifest.markUploaded now txid))
    | _ => none
  | .putFailed task stored =>
    match s.tasks[task]? with
    | some ⟨txid, .putting⟩ => some (s.endTask task stored (s.cache.manifest.markFailed txid))
    | _ => none
  | .cleanup now retention maxCacheSize done outcome =>
    if s.opened ∧ s.writer = .idle then
      (s.cache.cleanup now retention maxCacheSize done outcome).map fun c =>
        if outcome = .crashed then { s with cache := c }.crashed else { s with cache := c }
    else none
  | .crash => some s.crashed

/-! ## Opening -/

/-- What opening asks of a failed upload: an entry that is not marked uploaded, and the file. -/
def Retryable (files : Store Nat Bytes) (m : CacheManifest) (txid : Nat) : Prop :=
  ∃ e, m.entries.get txid = some e ∧ e.uploaded = false ∧ (files.get txid).isSome

theorem checkFailed_ok_iff : c.checkFailed m txid = .ok () ↔ Retryable c.files m txid := by
  unfold LocalCache.checkFailed Retryable
  cases hentry : m.entries.get txid with
  | none => simp
  | some e =>
    cases huploaded : e.uploaded with
    | true => simp [huploaded]
    | false =>
      cases hfile : c.files.get txid with
      | none => simp [huploaded]
      | some bytes => simp

theorem requeue_ok_iff {c : LocalCache} {m : CacheManifest} {pending failed : List Nat} :
    (∃ pending', c.requeue m pending failed = .ok pending') ↔ ∀ txid ∈ failed, Retryable c.files m txid := by
  induction failed generalizing pending with
  | nil => exact ⟨fun _ _ h => (by cases h), fun _ => ⟨pending, rfl⟩⟩
  | cons txid rest ih =>
    rw [LocalCache.requeue, forall_mem_cons, ← checkFailed_ok_iff]
    cases hcheck : c.checkFailed m txid with
    | error e => simp
    | ok u => simpa using ih

/-- **Opening succeeds exactly if every failed upload can be tried again.** -/
theorem newAt_ok_iff :
    (∃ m, c.newAt = .ok m) ↔ ∀ m, c.saved = some m → ∀ txid ∈ m.failed, Retryable c.files m txid := by
  unfold LocalCache.newAt
  cases hsaved : c.saved with
  | none => simp
  | some m =>
    by_cases hempty : m.failed = []
    · simp [hempty]
    · have hq := @requeue_ok_iff c m m.pending m.failed
      simp only [if_neg hempty, Option.some.injEq, forall_eq']
      rw [← hq]
      cases c.requeue m m.pending m.failed <;> simp

/-- The manifest a cache opens with has no failed uploads. -/
theorem newAt_failed (h : c.newAt = .ok m) : m.failed = [] := by
  unfold LocalCache.newAt at h
  split at h
  · cases h
    rfl
  next m' hsaved =>
  split at h
  · next hempty =>
    cases h
    exact hempty
  · split at h
    · cases h
    · cases h
      rfl

/-! ## What a change of the manifest does to what has failed -/

section Changes

variable {f : Nat}

variable {maxCacheSize : Nat}

theorem mem_removeTxid {l : List Nat} : f ∈ removeTxid txid l ↔ f ∈ l ∧ f ≠ txid := by
  simp [removeTxid]

theorem mem_insertTxid {l : List Nat} : f ∈ insertTxid txid l ↔ f ∈ l ∨ f = txid := by
  unfold insertTxid
  split
  · next hmem => exact ⟨.inl, fun h => h.elim id fun heq => heq ▸ hmem⟩
  · simp

theorem Retryable.put {bytes : Bytes} (h : Retryable files m f) : Retryable (files.put txid bytes) m f := by
  obtain ⟨e, hentry, huploaded, hfile⟩ := h
  refine ⟨e, hentry, huploaded, ?_⟩
  rw [Store.get_put]
  split
  · rfl
  · exact hfile

theorem Retryable.erase (h : Retryable files m f) (hne : f ≠ txid) : Retryable (files.erase txid) m f := by
  obtain ⟨e, hentry, huploaded, hfile⟩ := h
  exact ⟨e, hentry, huploaded, by rw [Store.get_erase, if_neg hne]; exact hfile⟩

theorem Retryable.addEntry {e : CacheEntry} (h : Retryable files m f) (he : e.uploaded = false) :
    Retryable files (m.addEntry txid e) f := by
  obtain ⟨e', hentry, huploaded, hfile⟩ := h
  by_cases heq : f = txid
  · subst heq
    exact ⟨e, Store.get_put_self _ _ _, he, hfile⟩
  · exact ⟨e', (Store.get_put_of_ne _ _ heq).trans hentry, huploaded, hfile⟩

/-- The recomputation moves only the durable cursor. -/
theorem entries_markUploaded (m : CacheManifest) (now : Int) (txid : Nat) : (m.markUploaded now txid).entries =
    (m.entries.get txid).elim m.entries fun e =>
      m.entries.put txid { e with uploaded := true, uploadedAt := some now } := by
  unfold CacheManifest.markUploaded
  cases m.entries.get txid <;> rfl

theorem get_markUploaded (m : CacheManifest) (now : Int) (txid f : Nat) :
    (m.markUploaded now txid).entries.get f = (m.entries.get f).map fun e =>
      if f = txid then { e with uploaded := true, uploadedAt := some now } else e := by
  rw [entries_markUploaded]
  by_cases heq : f = txid
  · subst heq
    cases hentry : m.entries.get f <;> simp [hentry]
  · cases hentry : m.entries.get txid <;> simp [Store.get_put, heq]

section

variable (h : Retryable files m f)
include h

theorem Retryable.markUploaded (hne : f ≠ txid) :
    Retryable files (m.markUploaded now txid) f := by
  obtain ⟨e, hentry, huploaded, hfile⟩ := h
  refine ⟨e, ?_, huploaded, hfile⟩
  rw [get_markUploaded, hentry, Option.map_some, if_neg hne]

theorem Retryable.markFailed : Retryable files (m.markFailed txid) f := h

theorem Retryable.dropEntry (hne : f ≠ txid) : Retryable files (m.dropEntry txid) f := by
  obtain ⟨e, hentry, huploaded, hfile⟩ := h
  refine ⟨e, ?_, huploaded, hfile⟩
  change (m.entries.erase txid).get f = some e
  rw [Store.get_erase, if_neg hne]
  exact hentry

end

theorem mem_overSize {size : Nat} {l : List (Nat × CacheEntry)} (h : f ∈ overSize maxCacheSize size l) :
    f ∈ l.map Prod.fst := by
  induction l generalizing size with
  | nil => cases h
  | cons e rest ih =>
    rw [overSize] at h
    split at h
    · cases h
    rcases mem_cons.mp h with rfl | h
    · exact mem_cons_self
    · exact mem_cons_of_mem _ (ih h)

/-- Cleanup deletes only what it may. -/
theorem evictable_of_mem_cleanup {retention : Int} (h : f ∈ m.cleanup now retention maxCacheSize) :
    ∃ e, m.entries.get f = some e ∧ m.evictable (f, e) = true := by
  have haged : ∀ {expired}, f ∈ (m.aged now retention expired).map Prod.fst →
      ∃ e, m.entries.get f = some e ∧ m.evictable (f, e) = true := by
    intro expired hmem
    obtain ⟨⟨txid, e⟩, he, rfl⟩ := mem_map.mp hmem
    rw [CacheManifest.aged, mem_mergeSort, mem_filter, Bool.and_eq_true] at he
    exact ⟨e, Store.get_eq_some.mpr he.1, he.2.1⟩
  rcases mem_append.mp h with h | h
  · exact haged h
  · exact haged (mem_overSize h)

theorem Retryable.not_mem_cleanup {retention : Int} (h : Retryable files m f) :
    f ∉ m.cleanup now retention maxCacheSize := by
  intro hmem
  obtain ⟨e, hentry, huploaded, -⟩ := h
  obtain ⟨e', hentry', hevictable⟩ := evictable_of_mem_cleanup hmem
  rw [hentry, Option.some.injEq] at hentry'
  simp [CacheManifest.evictable, ← hentry', huploaded] at hevictable

end Changes

/-! ## Runs -/

/-- Every failed upload of a manifest can be tried again. -/
def AllRetryable (files : Store Nat Bytes) (m : CacheManifest) : Prop := ∀ f ∈ m.failed, Retryable files m f

/-- The manifest in memory and the saved one can both be opened again. -/
structure Reopens (c : LocalCache) : Prop where
  memory : AllRetryable c.files c.manifest
  disk : ∀ m, c.saved = some m → AllRetryable c.files m

theorem AllRetryable.default : AllRetryable files .default := by
  intro f hf
  cases hf

theorem Reopens.update (stored : Bool) (h : Reopens c) (hm : AllRetryable c.files m) :
    Reopens (c.update stored m) := by
  refine ⟨hm, fun m' hm' => ?_⟩
  cases stored with
  | true =>
    cases hm'
    exact hm
  | false => exact h.disk m' hm'

theorem AllRetryable.markFailed (h : AllRetryable files m)
    (htxid : Retryable files m txid) : AllRetryable files (m.markFailed txid) := by
  intro f hf
  rcases mem_insertTxid.mp hf with hf | rfl
  · exact (h f hf).markFailed
  · exact htxid.markFailed

theorem AllRetryable.markUploaded (h : AllRetryable files m) : AllRetryable files (m.markUploaded now txid) := by
  intro f hf
  obtain ⟨hf, hne⟩ := mem_removeTxid.mp hf
  exact (h f hf).markUploaded hne

/-- Deleting files keeps both manifests good if neither lists one of them as failed. -/
theorem Reopens.cleaned {txids : List Nat} (h : Reopens c) (hmemory : ∀ f ∈ c.manifest.failed, f ∉ txids)
    (hdisk : ∀ m, c.saved = some m → ∀ f ∈ m.failed, f ∉ txids) :
    Reopens (c.cleaned txids) ∧ (c.cleaned txids).manifest.failed = c.manifest.failed := by
  induction txids generalizing c with
  | nil => exact ⟨h, rfl⟩
  | cons txid rest ih =>
    have hne : ∀ {f : Nat}, f ∉ txid :: rest → f ≠ txid := fun hf heq => hf (heq ▸ mem_cons_self)
    have hrest : ∀ {f : Nat}, f ∉ txid :: rest → f ∉ rest := fun hf hmem => hf (mem_cons_of_mem _ hmem)
    have hevict : Reopens (c.evict txid) := by
      constructor
      · intro f hf
        exact ((h.memory f hf).erase (hne (hmemory f hf))).dropEntry (hne (hmemory f hf))
      · intro m hm f hf
        exact (h.disk m hm f hf).erase (hne (hdisk m hm f hf))
    exact ih hevict (fun f hf => hrest (hmemory f hf)) (fun m hm f hf => hrest (hdisk m hm f hf))

/-- A failure is recorded only for an upload that is still open: its entry not marked uploaded, its file there. A
    cleanup deletes nothing the saved manifest lists as failed. -/
def Careful (ltx : LtxCrate) (s : UploadSystem) : CacheAction → Prop
  | .readFile task _ =>
    ∀ txid bytes e, s.tasks[task]? = some ⟨txid, .queued⟩ → s.cache.files.get txid = some bytes →
      verifyLtxWithResult ltx bytes = .error e → Retryable s.cache.files s.cache.manifest txid
  | .putFailed task _ =>
    ∀ txid, s.tasks[task]? = some ⟨txid, .putting⟩ → Retryable s.cache.files s.cache.manifest txid
  | .cleanup now retention maxCacheSize done _ =>
    ∀ m, s.cache.saved = some m → ∀ f ∈ m.failed,
      f ∉ (s.cache.manifest.cleanup now retention maxCacheSize).take done
  | _ => True

theorem start_reopens : Reopens UploadSystem.start.cache := by
  refine ⟨.default, fun m hm => ?_⟩
  cases hm

/-- **A careful step keeps both manifests good.** -/
theorem act_reopens {ltx : LtxCrate} {limit : Nat} {s s' : UploadSystem} {a : CacheAction}
    (h : Reopens s.cache) (hcareful : Careful ltx s a) (hact : s.act ltx limit a = some s') : Reopens s'.cache := by
  have hcrash : ∀ {c : LocalCache}, Reopens c → Reopens { c with manifest := .default } :=
    fun h => ⟨.default, h.disk⟩
  cases a <;> simp only [UploadSystem.act] at hact
  case openCache stored =>
    split at hact
    · cases hact
    split at hact
    · cases hact
      exact h
    next m hm =>
    have hfresh : AllRetryable s.cache.files m := by
      intro f hf
      rw [newAt_failed hm] at hf
      cases hf
    split at hact
    · cases hact
      exact ⟨hfresh, h.disk⟩
    · split at hact
      · cases hact
        exact h.update true hfresh
      · cases hact
        exact h
  case writeFile txid bytes isSnapshot =>
    split at hact
    · cases hact
      exact ⟨fun f hf => (h.memory f hf).put, fun m hm f hf => (h.disk m hm f hf).put⟩
    · cases hact
  case addEntry now stored =>
    split at hact
    · cases hact
      apply h.update stored
      intro f hf
      exact (h.memory f hf).addEntry rfl
    · cases hact
  case announce | startUploader =>
    split at hact
    · cases hact
      exact h
    · cases hact
  case resumeNext | receive =>
    split at hact
    · split at hact
      · cases hact
        exact h
      · cases hact
    · cases hact
  case readFile task stored =>
    split at hact
    · next txid htask =>
      split at hact
      · cases hact
        exact h
      · next bytes hfile =>
        split at hact
        · next e hverify =>
          cases hact
          exact h.update stored (h.memory.markFailed (hcareful txid bytes e htask hfile hverify))
        · cases hact
          exact h
    · cases hact
  case putDone task now stored =>
    split at hact
    · cases hact
      exact h.update stored h.memory.markUploaded
    · cases hact
  case putFailed task stored =>
    split at hact
    · next txid htask =>
      cases hact
      exact h.update stored (h.memory.markFailed (hcareful txid htask))
    · cases hact
  case cleanup now retention maxCacheSize done outcome =>
    -- What memory lists as failed is not marked uploaded, so it is not on the list; for the saved manifest that is
    -- the condition.
    have hspared : ∀ f ∈ s.cache.manifest.failed, f ∉ s.cache.manifest.cleanup now retention maxCacheSize :=
      fun f hf => (h.memory f hf).not_mem_cleanup
    obtain ⟨hcleaned, hfailed⟩ := h.cleaned (fun f hf hmem => hspared f hf (mem_of_mem_take hmem)) hcareful
    split at hact
    · obtain ⟨c, hc, hs'⟩ := Option.map_eq_some_iff.mp hact
      have hleft : Reopens c := by
        simp only [LocalCache.cleanup] at hc
        split at hc
        · cases hc
          exact hcleaned.update _ hcleaned.memory
        · next hdrop =>
          cases hc
          refine ⟨fun f hf => (hcleaned.memory f hf).dropEntry ?_, hcleaned.disk⟩
          rintro rfl
          have hmem : f ∈ (s.cache.manifest.cleanup now retention maxCacheSize).drop done := by
            rw [hdrop]
            exact mem_cons_self
          exact hspared f (hfailed ▸ hf) (mem_of_mem_drop hmem)
        · cases hc
          exact hcleaned
        · cases hc
      split at hs'
      · cases hs'
        exact hcrash hleft
      · cases hs'
        exact hleft
    · cases hact
  case crash =>
    cases hact
    exact hcrash h

/-- The states of runs from an empty cache whose steps all meet a condition. -/
inductive UploadsReach (ltx : LtxCrate) (limit : Nat) (P : UploadSystem → CacheAction → Prop) : UploadSystem → Prop
  | start : UploadsReach ltx limit P .start
  | step {s s' : UploadSystem} {a : CacheAction} :
    UploadsReach ltx limit P s → P s a → s.act ltx limit a = some s' → UploadsReach ltx limit P s'

theorem UploadsReach.reopens {ltx : LtxCrate} {limit : Nat} {s : UploadSystem}
    (h : UploadsReach ltx limit (Careful ltx) s) : Reopens s.cache := by
  induction h with
  | start => exact start_reopens
  | step _ hcareful hact ih => exact act_reopens ih hcareful hact

/-- No TXID is recorded as both uploaded and failed. -/
def CacheManifest.Consistent (m : CacheManifest) : Prop :=
  ∀ txid ∈ m.failed, ∀ e, m.entries.get txid = some e → e.uploaded = false

theorem AllRetryable.consistent (h : AllRetryable files m) : m.Consistent := by
  intro txid htxid e he
  obtain ⟨e', hentry, huploaded, -⟩ := h txid htxid
  rw [he, Option.some.injEq] at hentry
  rw [hentry, huploaded]

/-- **In a run of careful steps no TXID is both uploaded and failed, and the cache can be opened again.** -/
theorem cache_reopens (ltx : LtxCrate) (limit : Nat) (s : UploadSystem)
    (h : UploadsReach ltx limit (Careful ltx) s) :
    s.cache.manifest.Consistent ∧ (∀ m, s.cache.saved = some m → m.Consistent) ∧ ∃ m, s.cache.newAt = .ok m := by
  obtain ⟨hmemory, hdisk⟩ := h.reopens
  exact ⟨hmemory.consistent, fun m hm => (hdisk m hm).consistent, newAt_ok_iff.mpr hdisk⟩

/-! ### A file queued twice -/

section Twice

variable {P : UploadSystem → CacheAction → Prop}

/-- The manifest of a cache with the snapshot of TXID 1 in it. -/
def manifestOne (pending failed : List Nat) : CacheManifest :=
  ⟨0, 0, pending, failed, 5, Store.empty.put 1 ⟨5, 0, false, none, true, 1, 1⟩⟩

def cachedOne (writer : Writer) (channel : List Nat) (resume : Option (List Nat)) (tasks : List UploadTask) :
    UploadSystem :=
  ⟨⟨Store.empty.put 1 (ltxObject 1), manifestOne [1] [], some (manifestOne [1] [])⟩, true, writer, channel, resume,
    tasks⟩

/-- The file was cached before the uploader looked at what was pending: it is resumed, and then received. -/
theorem reaches_queuedTwice (hP : ∀ s a, Careful (twoCrate 2) s a → P s a) :
    UploadsReach (twoCrate 2) 4 P (cachedOne .idle [] (some []) [⟨1, .queued⟩, ⟨1, .queued⟩]) := by
  have hopened : UploadsReach (twoCrate 2) 4 P
      ⟨⟨.empty, .default, some .default⟩, true, .idle, [], none, []⟩ :=
    .step .start (hP _ (.openCache true) trivial) rfl
  have hwritten : UploadsReach (twoCrate 2) 4 P
      ⟨⟨Store.empty.put 1 (ltxObject 1), .default, some .default⟩, true, .written 1 (ltxObject 1) true, [], none,
        []⟩ :=
    .step hopened (hP _ (.writeFile 1 (ltxObject 1) true) trivial) rfl
  have hcached : UploadsReach (twoCrate 2) 4 P (cachedOne (.cached 1) [] none []) :=
    .step hwritten (hP _ (.addEntry 0 true) trivial) rfl
  have htold : UploadsReach (twoCrate 2) 4 P (cachedOne .idle [1] none []) :=
    .step hcached (hP _ .announce trivial) rfl
  have hpending : (manifestOne [1] []).pendingUploads = [1] := mergeSort_singleton _
  have hstarted : UploadsReach (twoCrate 2) 4 P (cachedOne .idle [1] (some [1]) []) := by
    refine .step htold (hP _ .startUploader trivial) ?_
    simp only [UploadSystem.act, cachedOne, hpending, and_self, if_true]
  have hresumed : UploadsReach (twoCrate 2) 4 P (cachedOne .idle [1] (some []) [⟨1, .queued⟩]) :=
    .step hstarted (hP _ .resumeNext trivial) rfl
  exact .step hresumed (hP _ .receive trivial) rfl

/-- Both uploads read the file and find it good. -/
theorem reaches_puttingTwice (hP : ∀ s a, Careful (twoCrate 2) s a → P s a) :
    UploadsReach (twoCrate 2) 4 P (cachedOne .idle [] (some []) [⟨1, .putting⟩, ⟨1, .putting⟩]) := by
  have hgood : ∀ e, verifyLtxWithResult (twoCrate 2) (ltxObject 1) ≠ .error e := fun e h => by cases h
  have hfirst : UploadsReach (twoCrate 2) 4 P (cachedOne .idle [] (some []) [⟨1, .putting⟩, ⟨1, .queued⟩]) := by
    refine .step (reaches_queuedTwice hP) (hP _ (.readFile 0 true) ?_) rfl
    intro txid bytes e htask hfile hverify
    cases htask
    cases hfile
    exact absurd hverify (hgood e)
  refine .step hfirst (hP _ (.readFile 1 true) ?_) rfl
  intro txid bytes e htask hfile hverify
  cases htask
  cases hfile
  exact absurd hverify (hgood e)

/-- One of the two uploads fails, the process dies, and the next one queues the file again. -/
theorem cache_reopens_requeued :
    ∃ s, UploadsReach (twoCrate 2) 4 (Careful (twoCrate 2)) s ∧ s.opened = true ∧ s.cache.manifest.pending = [1] ∧
      s.cache.manifest.Consistent ∧ (∀ m, s.cache.saved = some m → m.Consistent) ∧
      ∃ m, s.cache.newAt = .ok m := by
  have hfailed : UploadsReach (twoCrate 2) 4 (Careful (twoCrate 2))
      ⟨⟨Store.empty.put 1 (ltxObject 1), manifestOne [] [1], some (manifestOne [] [1])⟩, true, .idle, [], some [],
        [⟨1, .putting⟩]⟩ := by
    refine .step (reaches_puttingTwice fun _ _ h => h) (a := .putFailed 0 true) ?_ rfl
    intro txid htask
    cases htask
    exact ⟨_, rfl, rfl, rfl⟩
  have hcrashed : UploadsReach (twoCrate 2) 4 (Careful (twoCrate 2))
      ⟨⟨Store.empty.put 1 (ltxObject 1), .default, some (manifestOne [] [1])⟩, false, .idle, [], none, []⟩ :=
    .step hfailed (a := .crash) trivial rfl
  have hreopened : UploadsReach (twoCrate 2) 4 (Careful (twoCrate 2)) (cachedOne .idle [] none []) :=
    .step hcrashed (a := .openCache true) trivial rfl
  exact ⟨_, hreopened, rfl, rfl, cache_reopens (twoCrate 2) 4 _ hreopened⟩

/-- **The second upload fails after the first has succeeded: the cache cannot be opened again.** -/
theorem cache_stays_shut :
    ∃ s, UploadsReach (twoCrate 2) 4 (fun _ _ => True) s ∧
      (∃ m e, s.cache.saved = some m ∧ 1 ∈ m.failed ∧ m.entries.get 1 = some e ∧ e.uploaded = true) ∧
      s.cache.newAt = .error "failed upload TXID 1 is also marked uploaded" := by
  have hdone : ∃ s, UploadsReach (twoCrate 2) 4 (fun _ _ => True) s ∧
      s = ⟨⟨Store.empty.put 1 (ltxObject 1), (manifestOne [1] []).markUploaded 7 1,
        some ((manifestOne [1] []).markUploaded 7 1)⟩, true, .idle, [], some [], [⟨1, .putting⟩]⟩ :=
    ⟨_, .step (reaches_puttingTwice fun _ _ _ => trivial) (a := .putDone 0 7 true) trivial rfl, rfl⟩
  obtain ⟨s, hs, rfl⟩ := hdone
  exact ⟨_, .step hs (a := .putFailed 0 true) trivial rfl, ⟨_, _, rfl, mem_singleton.mpr rfl, rfl, rfl⟩, rfl⟩

end Twice

end Watch
end Walrust
