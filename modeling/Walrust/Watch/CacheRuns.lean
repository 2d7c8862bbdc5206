import Walrust.Legacy.FoldRestore
import Walrust.Watch.Uploads

/-!
# `Walrust.Watch.CacheRuns` — runs of a cache, and its size

The watcher writes to the cache, the uploader confirms and fails what was written, a timer cleans up and the next
process opens what the last one left. Nothing in the manifest is computed anew from the files: each call adds to what
is there or takes from it. A call changes the manifest in memory first, and saving it may fail.

* `CacheCall`, `LocalCache.call` — the calls made on a cache, and how far they come;
* `Kept.call`, `Kept.run` — what each kind of call keeps, every call and every run keeps;
* `size_exact` — the recorded size.
-/

namespace Walrust
namespace Watch

open Legacy

/-! ## Calls -/

/-- A call made on a cache, or the part of one that is done under the lock; `stored` says whether the manifest was
    saved at its end. The uploader makes `confirm` and `fail`. -/
inductive CacheCall where
  /-- The file of a write; `addEntry` follows unless the write fails here. -/
  | writeFile (txid : Nat) (bytes : Bytes)
  | addEntry (txid : Nat) (bytes : Bytes) (isSnapshot stored : Bool)
  | confirm (txid : Nat) (stored : Bool)
  | fail (txid : Nat) (stored : Bool)
  | cleanup (retention : Int) (maxCacheSize done : Nat) (outcome : CleanupEnd)
  | reopen (stored : Bool)

/-- The entry of a file just written. -/
def newEntry (ltx : LtxCrate) (now : Int) (txid : Nat) (bytes : Bytes) (isSnapshot : Bool) : CacheEntry :=
  ⟨bytes.length, now, false, none, isSnapshot, (ltxTxidRange ltx txid bytes).1, (ltxTxidRange ltx txid bytes).2⟩

/-- The cache after a call; none if the cache does not open or the call does not end that way. -/
def LocalCache.call (ltx : LtxCrate) (now : Int) (c : LocalCache) : CacheCall → Option LocalCache
  | .writeFile txid bytes => some { c with files := c.files.put txid bytes }
  | .addEntry txid bytes isSnapshot stored =>
    some (c.update stored (c.manifest.addEntry txid (newEntry ltx now txid bytes isSnapshot)))
  | .confirm txid stored => some (c.update stored (c.manifest.markUploaded now txid))
  | .fail txid stored => some (c.update stored (c.manifest.markFailed txid))
  | .cleanup retention maxCacheSize done outcome => c.cleanup now retention maxCacheSize done outcome
  | .reopen stored =>
    match c.newAt with
    | .error _ => none
    | .ok m => some (c.update stored m)

/-- The entry under a TXID is confirmed and not beyond the cursor. -/
def CacheManifest.Passed (m : CacheManifest) (txid : Nat) : Prop :=
  ∀ e, m.entries.get txid = some e → e.uploaded = true ∧ (e.txidRange txid).2 ≤ m.lastContiguousUploadedTxid

/-- A property of manifests that the calls with a condition `C` keep: what each kind of call can do to a manifest. -/
structure Kept (ltx : LtxCrate) (C : CacheManifest → CacheCall → Prop) (P : CacheManifest → Prop) : Prop where
  write : ∀ {m now txid bytes isSnapshot stored}, P m → C m (.addEntry txid bytes isSnapshot stored) →
    P (m.addEntry txid (newEntry ltx now txid bytes isSnapshot))
  confirm : ∀ {m now txid}, P m → P (m.markUploaded now txid)
  fail : ∀ {m txid}, P m → P (m.markFailed txid)
  drop : ∀ {m txid}, P m → m.Passed txid → P (m.dropEntry txid)
  forget : ∀ {m₀ m retention maxCacheSize done txid}, C m₀ (.cleanup retention maxCacheSize done .removeFailed) →
    P m → P (m.forgetEntry txid)
  requeue : ∀ {m pending}, P m → (∀ x, x ∈ m.pending ∨ x ∈ m.failed → x ∈ pending) →
    P ({ m with pending := pending, failed := [] } : CacheManifest).recomputeContiguous

/-- The manifest in memory and the one that would be opened next both have the property. -/
def LocalCache.Both (P : CacheManifest → Prop) (c : LocalCache) : Prop := P c.manifest ∧ P (c.saved.getD .default)

section Kept

variable {ltx : LtxCrate} {C : CacheManifest → CacheCall → Prop} {P : CacheManifest → Prop} {c c' : LocalCache}
  {now : Int}

theorem LocalCache.Both.update (h : c.Both P) {m : CacheManifest} (hm : P m) {stored : Bool} :
    (c.update stored m).Both P := by
  cases stored with
  | true => exact ⟨hm, hm⟩
  | false => exact ⟨hm, h.2⟩

theorem Kept.cleaned (h : Kept ltx C P) (hP : c.Both P) {txids : List Nat}
    (hpassed : ∀ txid ∈ txids, c.manifest.Passed txid) : (c.cleaned txids).Both P := by
  induction txids generalizing c with
  | nil => exact hP
  | cons txid rest ih =>
    refine @ih (c.evict txid) ⟨h.drop hP.1 (hpassed txid List.mem_cons_self), hP.2⟩ fun txid' hmem e he => ?_
    change (c.manifest.entries.erase txid).get txid' = some e at he
    rw [Lib.Store.get_erase] at he
    split at he
    · cases he
    · exact hpassed txid' (List.mem_cons_of_mem _ hmem) e he

theorem Kept.cleanup (h : Kept ltx C P) {retention : Int} {maxCacheSize done : Nat} {outcome : CleanupEnd}
    (hP : c.Both P) (hC : C c.manifest (.cleanup retention maxCacheSize done outcome))
    (hcall : c.cleanup now retention maxCacheSize done outcome = some c') : c'.Both P := by
  have hleft : (c.cleaned ((c.manifest.cleanup now retention maxCacheSize).take done)).Both P := by
    refine h.cleaned hP fun txid hmem e he => ?_
    obtain ⟨e', he', hevictable⟩ := evictable_of_mem_cleanup (List.mem_of_mem_take hmem)
    rw [he, Option.some.injEq] at he'
    subst he'
    simp only [CacheManifest.evictable, Bool.and_eq_true, decide_eq_true_eq] at hevictable
    exact hevictable.1
  simp only [LocalCache.cleanup] at hcall
  split at hcall
  · cases hcall
    exact hleft.update hleft.1
  · cases hcall
    exact ⟨h.forget hC hleft.1, hleft.2⟩
  · cases hcall
    exact hleft
  · cases hcall

theorem requeue_mem {m : CacheManifest} {pending failed pending' : List Nat}
    (h : c.requeue m pending failed = .ok pending') : ∀ x, x ∈ pending ∨ x ∈ failed → x ∈ pending' := by
  induction failed generalizing pending with
  | nil =>
    cases h
    simp
  | cons txid rest ih =>
    rw [LocalCache.requeue] at h
    split at h
    · cases h
    · intro x hx
      rw [List.mem_cons, ← or_assoc, ← mem_insertTxid] at hx
      exact ih h x hx

theorem Kept.newAt (h : Kept ltx C P) {m : CacheManifest} (hP : P (c.saved.getD .default))
    (hnew : c.newAt = .ok m) : P m := by
  unfold LocalCache.newAt at hnew
  cases hsaved : c.saved with
  | none =>
    rw [hsaved] at hP hnew
    cases hnew
    exact hP
  | some saved =>
    simp only [hsaved, Option.getD_some] at hP hnew
    split at hnew
    · cases hnew
      exact hP
    split at hnew
    · cases hnew
    next hrequeue =>
    cases hnew
    exact h.requeue hP (requeue_mem hrequeue)

/-- **What each kind of call keeps, every call keeps**, in memory and on disk. -/
theorem Kept.call (h : Kept ltx C P) {call : CacheCall} (hP : c.Both P) (hC : C c.manifest call)
    (hcall : c.call ltx now call = some c') : c'.Both P := by
  cases call with
  | writeFile txid bytes =>
    cases hcall
    exact hP
  | addEntry txid bytes isSnapshot stored =>
    cases hcall
    exact hP.update (h.write hP.1 hC)
  | confirm txid stored =>
    cases hcall
    exact hP.update (h.confirm hP.1)
  | fail txid stored =>
    cases hcall
    exact hP.update (h.fail hP.1)
  | cleanup retention maxCacheSize done outcome => exact h.cleanup hP hC hcall
  | reopen stored =>
    simp only [LocalCache.call] at hcall
    split at hcall
    · cases hcall
    next hnew =>
    cases hcall
    exact hP.update (h.newAt hP.2 hnew)

end Kept

/-! ## Runs -/

/-- A cache just created. -/
def LocalCache.created : LocalCache := ⟨.empty, .default, some .default⟩

/-- A call that meets a condition on the manifest it finds. -/
inductive LocalCache.Step (ltx : LtxCrate) (C : CacheManifest → CacheCall → Prop) : LocalCache → LocalCache → Prop
  | call {c c' : LocalCache} (now : Int) (call : CacheCall) : C c.manifest call → c.call ltx now call = some c' →
    Step ltx C c c'

/-- Calls one after another. -/
abbrev LocalCache.Steps (ltx : LtxCrate) (C : CacheManifest → CacheCall → Prop) : LocalCache → LocalCache → Prop :=
  Relation.ReflTransGen (LocalCache.Step ltx C)

/-- The caches a run leads to whose calls meet the condition. -/
def LocalCache.Reached (ltx : LtxCrate) (C : CacheManifest → CacheCall → Prop) (c : LocalCache) : Prop :=
  LocalCache.Steps ltx C .created c

section Runs

variable {ltx : LtxCrate} {C : CacheManifest → CacheCall → Prop} {P : CacheManifest → Prop} {c c' : LocalCache}

theorem Kept.steps (h : Kept ltx C P) (hP : c.Both P) (hrun : LocalCache.Steps ltx C c c') : c'.Both P := by
  induction hrun with
  | refl => exact hP
  | tail _ hstep ih =>
    cases hstep with
    | call now call hC hcall => exact h.call ih hC hcall

theorem Kept.run (h : Kept ltx C P) (hnew : P .default) (hrun : c.Reached ltx C) : c.Both P :=
  h.steps (c := .created) ⟨hnew, hnew⟩ hrun

end Runs

/-! ## The size -/

/-- The size of the cache is that of its entries. -/
def CacheManifest.Sized (m : CacheManifest) : Prop := m.cacheSizeBytes = m.entries.total (·.size)

/-- A call that writes no TXID over an entry with bytes in it, and no cleanup that fails to remove a file. -/
def Unwritten (m : CacheManifest) : CacheCall → Prop
  | .addEntry txid _ _ _ => (m.entries.get txid).elim 0 (·.size) = 0
  | .cleanup _ _ _ outcome => outcome ≠ .removeFailed
  | _ => True

/-- What each kind of call adds or takes. -/
theorem sized_kept (ltx : LtxCrate) : Kept ltx Unwritten CacheManifest.Sized where
  write {m now txid bytes isSnapshot stored} h hnew := by
    have htotal := m.entries.total_erase txid (·.size)
    show m.cacheSizeBytes + _ = (m.entries.put txid _).total (·.size)
    rw [Lib.Store.total_put, h, ← htotal, hnew, add_zero]
  confirm {m now txid} h := by
    have htotal := m.entries.total_erase txid (·.size)
    show m.cacheSizeBytes = (m.markUploaded now txid).entries.total (·.size)
    rw [entries_markUploaded]
    cases hentry : m.entries.get txid with
    | none => exact h
    | some e =>
      rw [hentry] at htotal
      rw [Option.elim_some, Lib.Store.total_put]
      exact h.trans htotal.symm
  fail h := h
  drop {m txid} h _ := by
    have htotal := m.entries.total_erase txid (·.size)
    show m.cacheSizeBytes - _ = (m.entries.erase txid).total (·.size)
    rw [h, ← htotal, Nat.add_sub_cancel]
  forget hC _ := absurd rfl hC
  requeue h _ := h

/-- **Where no TXID is written over an entry and no removal fails, the recorded size is the sum of the sizes of the
    entries**, in memory and in the saved manifest. -/
theorem size_exact (ltx : LtxCrate) (c : LocalCache) (h : c.Reached ltx Unwritten) :
    c.manifest.cacheSizeBytes = c.manifest.entries.total (·.size) ∧
      (c.saved.getD .default).cacheSizeBytes = (c.saved.getD .default).entries.total (·.size) :=
  (sized_kept ltx).run rfl h

section

variable {ltx : LtxCrate} {C : CacheManifest → CacheCall → Prop} {c : LocalCache} {txid : Nat} {bytes : Bytes}
  {isSnapshot : Bool}

/-- `write_ltx` in a run: the file, and the manifest. -/
theorem LocalCache.Reached.write (h : c.Reached ltx C) (hfile : C c.manifest (.writeFile txid bytes)) (stored : Bool)
    (hentry : C c.manifest (.addEntry txid bytes isSnapshot stored)) :
    LocalCache.Reached ltx C (({ c with files := c.files.put txid bytes } : LocalCache).update stored
      (c.manifest.addEntry txid (newEntry ltx 0 txid bytes isSnapshot))) :=
  (h.tail (.call 0 (.writeFile txid bytes) hfile rfl)).tail (.call 0 (.addEntry txid bytes isSnapshot stored) hentry rfl)

end

/-- Two files are written; the save of the second fails. -/
theorem size_exact_two :
    ∃ c : LocalCache, c.manifest.cacheSizeBytes = 3 ∧ (c.saved.getD .default).cacheSizeBytes = 1 ∧
      c.manifest.cacheSizeBytes = c.manifest.entries.total (·.size) ∧
      (c.saved.getD .default).cacheSizeBytes = (c.saved.getD .default).entries.total (·.size) := by
  have hone := @LocalCache.Reached.write snapshotCrate Unwritten _ 1 [0] false .refl trivial true rfl
  refine ⟨_, ?_, ?_, size_exact snapshotCrate _ (@LocalCache.Reached.write _ _ _ 2 [0, 0] false hone trivial false rfl)⟩
  · rfl
  · rfl

/-- **One byte is written twice under TXID 1: one entry of one byte, and a recorded size of two.** -/
theorem size_counts_twice :
    ∃ c : LocalCache, c.Reached snapshotCrate (fun _ _ => True) ∧
      c.manifest.cacheSizeBytes = 2 ∧ c.manifest.entries.total (·.size) = 1 := by
  have hone := @LocalCache.Reached.write snapshotCrate (fun _ _ => True) _ 1 [0] false .refl trivial true trivial
  refine ⟨_, @LocalCache.Reached.write _ _ _ 1 [0] false hone trivial true trivial, ?_, ?_⟩
  · rfl
  · rfl

end Watch
end Walrust
