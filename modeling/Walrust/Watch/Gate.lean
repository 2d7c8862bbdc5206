import Walrust.Watch.CacheRuns
import Walrust.Watch.Reanchor

/-!
# `Walrust.Watch.Gate` — what a checkpoint waits for

Before a checkpoint the shadow watcher waits until the cache has confirmed its uploads. The wait looks three times at a
manifest that the uploader changes in between. The TXID it waits for is that of the watcher, which also moves by
snapshots that are stored without the cache.

* `Waits` — `wait_for_cache_checkpoint_durability` with the marks made while it runs;
* `gate_settled` — what a wait that returns has seen;
* `Calls` — what a watcher does to its cache and its durable cursor are calls on the cache and records of the cursor;
* `Behind`, `act_behind` — the watcher's TXID stays behind what the cache has or will have confirmed;
* `gate_passes` — the gate of a checkpoint once all uploads are confirmed.
-/

namespace Walrust
namespace Watch

open Legacy List Sqlite Oracle
open Lib (Moves Triple Returns returns_bind returns_of_ok returns_get returns_modify returns_pure bind_of_ok)

/-! ## The wait -/

/-- What the uploader does meanwhile. -/
inductive Mark where
  | uploaded (now : Int) (txid : Nat)
  | failed (txid : Nat)

def CacheManifest.mark (m : CacheManifest) : Mark → CacheManifest
  | .uploaded now txid => m.markUploaded now txid
  | .failed txid => m.markFailed txid

def CacheManifest.marks (m : CacheManifest) (l : List Mark) : CacheManifest := l.foldl CacheManifest.mark m

/-- How a wait ends. -/
inductive WaitEnd where
  | ok
  /-- "cache upload failures remain". -/
  | failures (failed : List Nat)
  /-- "durable upload confirmation timed out". -/
  | timedOut (requiredTxid uploadedTxid : Nat) (pending : List Nat)

/-- `wait_for_cache_checkpoint_durability` on a manifest to which the given marks are made meanwhile. A round reads
    the failed uploads after the marks `a`, the pending ones after `b`, and the last uploaded TXID after `l`; `B` is a
    condition on the marks between the first two. -/
inductive Waits (B : List Mark → Prop) (requiredTxid : Nat) : CacheManifest → List Mark → WaitEnd → Prop
  | failures {m : CacheManifest} {a : List Mark} : (m.marks a).failed ≠ [] →
    Waits B requiredTxid m a (.failures (m.marks a).failed)
  | ok {m : CacheManifest} {a b l : List Mark} : B b → (m.marks a).failed = [] → (m.marks (a ++ b)).pending = [] →
    requiredTxid ≤ (m.marks (a ++ b ++ l)).lastUploadedTxid → Waits B requiredTxid m (a ++ b ++ l) .ok
  | timedOut {m : CacheManifest} {a b l : List Mark} : B b → (m.marks a).failed = [] →
    ¬ ((m.marks (a ++ b)).pending = [] ∧ requiredTxid ≤ (m.marks (a ++ b ++ l)).lastUploadedTxid) →
    Waits B requiredTxid m (a ++ b ++ l)
      (.timedOut requiredTxid (m.marks (a ++ b ++ l)).lastUploadedTxid (m.marks (a ++ b)).pendingUploads)
  | again {m : CacheManifest} {a b l rest : List Mark} {result : WaitEnd} : B b → (m.marks a).failed = [] →
    ¬ ((m.marks (a ++ b)).pending = [] ∧ requiredTxid ≤ (m.marks (a ++ b ++ l)).lastUploadedTxid) →
    Waits B requiredTxid (m.marks (a ++ b ++ l)) rest result → Waits B requiredTxid m (a ++ b ++ l ++ rest) result

/-- Up to the TXID everything in the cache is confirmed, and nothing is pending or failed. -/
structure Settled (requiredTxid : Nat) (m : CacheManifest) : Prop where
  uploaded : ∀ txid e, txid ≤ requiredTxid → m.entries.get txid = some e → e.uploaded = true
  clear : ∀ txid ≤ requiredTxid, txid ∉ m.pending ∧ txid ∉ m.failed

/-- Every entry that is not confirmed is pending or failed. -/
def CacheManifest.Listed (m : CacheManifest) : Prop :=
  ∀ txid e, m.entries.get txid = some e → e.uploaded = false → txid ∈ m.pending ∨ txid ∈ m.failed

section Listed

variable {m : CacheManifest} {requiredTxid : Nat}

theorem CacheManifest.Listed.markUploaded (h : m.Listed) (now : Int) (txid : Nat) : (m.markUploaded now txid).Listed := by
  intro f e he huploaded
  rw [get_markUploaded, Option.map_eq_some_iff] at he
  obtain ⟨e', he', rfl⟩ := he
  by_cases heq : f = txid
  · simp [heq] at huploaded
  · rw [if_neg heq] at huploaded
    exact (h f e' he' huploaded).imp (fun hf => mem_removeTxid.mpr ⟨hf, heq⟩) fun hf => mem_removeTxid.mpr ⟨hf, heq⟩

theorem CacheManifest.Listed.markFailed (h : m.Listed) (txid : Nat) : (m.markFailed txid).Listed := by
  intro f e he huploaded
  by_cases heq : f = txid
  · exact .inr (mem_insertTxid.mpr (.inr heq))
  · exact (h f e he huploaded).imp (fun hf => mem_removeTxid.mpr ⟨hf, heq⟩) fun hf => mem_insertTxid.mpr (.inl hf)

theorem CacheManifest.Listed.erase (h : m.Listed) {txid : Nat} :
    ∀ f e, (m.entries.erase txid).get f = some e → e.uploaded = false → f ∈ m.pending ∨ f ∈ m.failed := by
  intro f e he huploaded
  rw [Lib.Store.get_erase] at he
  split at he
  · cases he
  · exact h f e he huploaded

theorem listed_kept (ltx : LtxCrate) (C : CacheManifest → CacheCall → Prop) : Kept ltx C CacheManifest.Listed where
  write {m now txid bytes isSnapshot stored} h _ f e he huploaded := by
    change (m.entries.put txid _).get f = some e at he
    rw [Lib.Store.get_put] at he
    split at he
    · next heq => exact .inl (mem_insertTxid.mpr (.inr heq))
    · exact (h f e he huploaded).imp_left fun hf => mem_insertTxid.mpr (.inl hf)
  confirm h := h.markUploaded _ _
  fail h := h.markFailed _
  drop h _ := h.erase
  forget _ h := h.erase
  requeue h hpending f e he huploaded := .inl (hpending f (h f e he huploaded))

theorem CacheManifest.Listed.marks (h : m.Listed) (l : List Mark) : (m.marks l).Listed := by
  induction l generalizing m with
  | nil => exact h
  | cons mark rest ih =>
    apply ih
    cases mark with
    | uploaded now txid => exact h.markUploaded now txid
    | failed txid => exact h.markFailed txid

theorem CacheManifest.Listed.settled (h : m.Listed) (hpending : m.pending = []) (hfailed : m.failed = []) :
    Settled requiredTxid m := by
  refine ⟨fun txid e _ he => ?_, fun txid _ => by simp [hpending, hfailed]⟩
  by_contra huploaded
  have := h txid e he (Bool.eq_false_of_not_eq_true huploaded)
  simp [hpending, hfailed] at this

/-- No upload fails between the first two reads. -/
def NoFailure (b : List Mark) : Prop := ∀ mark ∈ b, ∃ now txid, mark = .uploaded now txid

theorem marks_failed {b : List Mark} (hb : NoFailure b) (h : m.failed = []) : (m.marks b).failed = [] := by
  induction b generalizing m with
  | nil => exact h
  | cons mark rest ih =>
    obtain ⟨now, txid, rfl⟩ := hb mark mem_cons_self
    apply ih fun mark hmark => hb mark (mem_cons_of_mem _ hmark)
    show removeTxid txid m.failed = []
    rw [h]
    rfl

/-- **Where no upload fails between the reads of the failed and the pending uploads, a wait that returns has seen a
    moment at which the cache was settled.** -/
theorem gate_settled (ltx : LtxCrate) (c : LocalCache) (hrun : c.Reached ltx fun _ _ => True) (requiredTxid : Nat)
    (l : List Mark) (h : Waits NoFailure requiredTxid c.manifest l .ok) :
    ∃ l', l' <+: l ∧ Settled requiredTxid (c.manifest.marks l') := by
  have hlisted : c.manifest.Listed := ((listed_kept ltx _).run (fun txid e he => by cases he) hrun).1
  generalize c.manifest = m at h hlisted
  generalize hresult : WaitEnd.ok = result at h
  induction h with
  | failures => cases hresult
  | timedOut => cases hresult
  | @ok m a b l hb hfailed hpending =>
    refine ⟨a ++ b, prefix_append _ _, (hlisted.marks _).settled hpending ?_⟩
    rw [CacheManifest.marks, foldl_append]
    exact marks_failed hb hfailed
  | @again m a b l rest result hb hfailed hwait hrest ih =>
    obtain ⟨l', hl', hsettled⟩ := ih (hlisted.marks _) hresult
    refine ⟨a ++ b ++ l ++ l', (prefix_append_right_inj _).mpr hl', ?_⟩
    rw [CacheManifest.marks, foldl_append]
    exact hsettled

/-- Two TXIDs are confirmed while the watcher waits, each between the two reads of a round. -/
theorem gate_settled_two :
    ∃ (c : LocalCache) (l' : List Mark), c.manifest.pending = [1, 2] ∧ l' <+: [.uploaded 0 1, .uploaded 0 2] ∧
      Settled 2 (c.manifest.marks l') := by
  have hone := @LocalCache.Reached.write snapshotCrate (fun _ _ => True) _ 1 [0] false .refl trivial true trivial
  have htwo := @LocalCache.Reached.write _ _ _ 2 [0] false hone trivial true trivial
  have hmark : ∀ txid, NoFailure [.uploaded 0 txid] := fun txid mark h => ⟨0, txid, mem_singleton.mp h⟩
  obtain ⟨l', hl'⟩ := gate_settled snapshotCrate _ htwo 2 _
    (@Waits.again _ _ _ [] [.uploaded 0 1] [] [.uploaded 0 2] _ (hmark 1) rfl (fun h => absurd h.1 (by decide))
      (@Waits.ok _ _ _ [] [.uploaded 0 2] [] (hmark 2) rfl rfl (le_refl 2)))
  exact ⟨_, l', rfl, hl'⟩

/-- **TXID 1 fails between the two reads: the wait returns, and TXID 1 was pending before and has failed after.** -/
theorem gate_passes_failure :
    ∃ c : LocalCache, c.Reached snapshotCrate (fun _ _ => True) ∧ Waits (fun _ => True) 2 c.manifest [.failed 1] .ok ∧
      ∀ l', l' <+: [.failed 1] → ¬ Settled 2 (c.manifest.marks l') := by
  have hone := @LocalCache.Reached.write snapshotCrate (fun _ _ => True) _ 1 [0] false .refl trivial true trivial
  have htwo := @LocalCache.Reached.write _ _ _ 2 [0] false hone trivial true trivial
  refine ⟨_, .tail htwo (.call 0 (.confirm 2 true) trivial rfl), ?_, ?_⟩
  · exact @Waits.ok _ _ _ [] [.failed 1] [] trivial rfl rfl (le_refl 2)
  · intro l' hl' hsettled
    rcases prefix_cons_iff.mp hl' with rfl | ⟨rest, rfl, hrest⟩
    · exact (hsettled.clear 1 (by decide)).1 (mem_singleton.mpr rfl)
    · rw [prefix_nil.mp hrest] at hsettled
      exact (hsettled.clear 1 (by decide)).2 (mem_singleton.mpr rfl)

end Listed

/-! ## The TXID of the watcher -/

/-- The cache has, or will have, confirmed a TXID at or beyond this one. -/
def CacheManifest.Reaches (m : CacheManifest) (txid : Nat) : Prop :=
  txid ≤ m.lastUploadedTxid ∨ ∃ f, (f ∈ m.pending ∨ f ∈ m.failed) ∧ txid ≤ f

theorem reaches_kept (ltx : LtxCrate) (txid : Nat) : Kept ltx (fun _ _ => True) (·.Reaches txid) where
  write h _ := h.imp_right fun ⟨f, hf, hle⟩ => ⟨f, hf.imp_left fun hf => mem_insertTxid.mpr (.inl hf), hle⟩
  confirm {m now txid'} h := by
    rcases h with hle | ⟨f, hf, hle⟩
    · exact .inl (hle.trans (le_max_left ..))
    by_cases heq : f = txid'
    · exact .inl (hle.trans (heq ▸ le_max_right ..))
    · exact .inr ⟨f, hf.imp (fun hf => mem_removeTxid.mpr ⟨hf, heq⟩) fun hf => mem_removeTxid.mpr ⟨hf, heq⟩, hle⟩
  fail {m txid'} h := by
    refine h.imp_right fun ⟨f, hf, hle⟩ => ⟨f, ?_, hle⟩
    by_cases heq : f = txid'
    · exact .inr (mem_insertTxid.mpr (.inr heq))
    · exact hf.imp (fun hf => mem_removeTxid.mpr ⟨hf, heq⟩) fun hf => mem_insertTxid.mpr (.inl hf)
  drop h _ := h
  forget _ h := h
  requeue h hpending := h.imp_right fun ⟨f, hf, hle⟩ => ⟨f, .inl (hpending f hf), hle⟩

/-- The cache reaches the TXID, now and if it is opened again. -/
abbrev LocalCache.Reaches (c : LocalCache) (txid : Nat) : Prop := c.Both (·.Reaches txid)

section Watcher

variable {E A : Type} {w w' : World E} {ltx : LtxCrate} {N : Nat → Prop} {α : Type}

/-- Calls were made on the cache, and the durable cursor is as it was or has a TXID in `N`. -/
def Calls (ltx : LtxCrate) (N : Nat → Prop) (w w' : World E) : Prop :=
  LocalCache.Steps ltx (fun _ _ => True) w.cache w'.cache ∧
    (w'.progress = w.progress ∨ ∃ p, w'.progress = some p ∧ N p.currentTxid)

instance (ltx : LtxCrate) (N : Nat → Prop) : Frame (Calls (E := E) ltx N) where
  step w w' _ hcache hprogress _ := ⟨by rw [hcache], .inl hprogress⟩
  trans := by
    rintro w₁ w₂ w₃ ⟨hcalls, hprogress⟩ ⟨hcalls', hprogress'⟩
    refine ⟨hcalls.trans hcalls', ?_⟩
    rcases hprogress' with heq | hnew
    · exact heq ▸ hprogress
    · exact .inr hnew

/-- The durable cursor is behind the cache as it will be opened. -/
def Recorded (w : World E) : Prop := ∀ p, w.progress = some p → (w.cache.saved.getD .default).Reaches p.currentTxid

/-- The TXIDs and the durable cursor are behind the cache. -/
structure Live (txids : List Nat) (w : World E) : Prop where
  recorded : ∀ p, w.progress = some p → w.cache.Reaches p.currentTxid
  reaches : ∀ txid ∈ txids, w.cache.Reaches txid

theorem Live.disk {txids : List Nat} (h : Live txids w) : Recorded w := fun p hp => (h.recorded p hp).2

theorem Calls.live (h : Calls ltx N w w') {txids : List Nat} (hw : Live txids w) (hN : ∀ txid, N txid → txid ∈ txids) :
    Live txids w' := by
  have hkeeps : ∀ {txid}, w.cache.Reaches txid → w'.cache.Reaches txid :=
    fun hn => (reaches_kept ltx _).steps hn h.1
  refine ⟨fun p hp => ?_, fun txid hmem => hkeeps (hw.reaches txid hmem)⟩
  rcases h.2 with hsame | ⟨p', hp', hn⟩
  · exact hkeeps (hw.recorded p (hsame ▸ hp))
  · rw [hp', Option.some.injEq] at hp
    exact hkeeps (hw.reaches _ (hN _ (hp ▸ hn)))

/-! ### What the watcher calls -/

variable [SqliteEnv E A] {t : Tools E} {cfg : WatchConfig} {o first : Oracle A} {rest : List (Oracle A)} {txid : Nat}
  {txids : List Nat} {st : ShadowWatchState}

/-- A change of the manifest: one call on the cache, saved if it returns. -/
theorem updateManifest_cache {f : CacheManifest → CacheManifest} (w : World E) :
    Triple (· = w) (updateManifest o f : Run E Unit)
      (fun _ w' => w'.cache = w.cache.update true (f w.cache.manifest) ∧ w'.progress = w.progress)
      (fun _ w' => ∃ stored, w'.cache = w.cache.update stored (f w.cache.manifest) ∧ w'.progress = w.progress) := by
  refine .bind (M := fun _ w' => w'.cache = w.cache.update false (f w.cache.manifest) ∧ w'.progress = w.progress)
    (fun w' hw' => ?_) fun _ => ?_
  · subst hw'
    exact ⟨rfl, rfl⟩
  have hsame : Moves SameCache (interfere (o.env .saveManifest) : Run E Unit) := interfere_moves
  refine .bind (M := fun _ w' => w'.cache = w.cache.update false (f w.cache.manifest) ∧ w'.progress = w.progress)
    (hsame.triple (fun _ _ hw' h => ⟨h.1.trans hw'.1, h.2.trans hw'.2⟩)
      fun _ _ hw' h => ⟨false, h.1.trans hw'.1, h.2.trans hw'.2⟩) fun _ => ?_
  have hsave : ∀ w' : World E, w'.cache = w.cache.update false (f w.cache.manifest) →
      ({ w'.cache with saved := some w'.cache.manifest } : LocalCache) = w.cache.update true (f w.cache.manifest) := by
    intro w' hw'
    rw [hw']
    rfl
  cases o.fault .saveManifest with
  | none => exact fun w' hw' => ⟨hsave w' hw'.1, hw'.2⟩
  | fails => exact fun w' hw' => ⟨false, hw'⟩
  | crash => exact fun w' hw' => ⟨false, hw'⟩
  | failsStored => exact fun w' hw' => ⟨true, hsave w' hw'.1, hw'.2⟩

theorem updateManifest_calls {f : CacheManifest → CacheManifest}
    (h : ∀ (c : LocalCache) stored, LocalCache.Step ltx (fun _ _ => True) c (c.update stored (f c.manifest))) :
    Moves (Calls ltx N) (updateManifest o f : Run E Unit) := by
  intro w
  have hcache := updateManifest_cache (o := o) (f := f) w w rfl
  cases hres : (updateManifest o f : Run E Unit) w with
  | ok a w' =>
    rw [hres] at hcache
    exact ⟨.single (show LocalCache.Step _ _ _ w'.cache from hcache.1 ▸ h w.cache true), .inl hcache.2⟩
  | error e w' =>
    rw [hres] at hcache
    obtain ⟨stored, hcache, hprogress⟩ := hcache
    exact ⟨.single (show LocalCache.Step _ _ _ w'.cache from hcache ▸ h w.cache stored), .inl hprogress⟩

omit [SqliteEnv E A] in
theorem storeObject_calls {key : LtxKey} {bytes : Bytes} : Moves (Calls ltx N) (storeObject key bytes : Run E Unit) :=
  fun _ => ⟨.refl, .inl rfl⟩

/-- **An upload makes the calls of the uploader on the cache.** -/
theorem uploadTxid_calls : Moves (Calls t.ltx N) (uploadTxid t txid o rest) :=
  uploadTxid_moves (fun _ _ => storeObject_calls)
    (fun _ => updateManifest_calls fun _ stored => .call 0 (.fail txid stored) trivial rfl)
    fun _ now => updateManifest_calls fun _ stored => .call now (.confirm txid stored) trivial rfl

theorem writeLtx_calls {bytes : Bytes} {isSnapshot : Bool} :
    Moves (Calls t.ltx N) (writeLtx t o txid bytes isSnapshot) := by
  refine .bind (performWrite_moves fun w => ?_) fun _ => updateManifest_calls fun _ stored => ?_
  · exact ⟨.single (.call 0 (.writeFile txid bytes) trivial rfl), .inl rfl⟩
  · exact .call o.now.toInt (.addEntry txid bytes isSnapshot stored) trivial rfl

theorem syncShadowToCache_calls : Moves (Calls t.ltx N) (syncShadowToCache t st o) := by
  refine .bind encodeShadowToLtx_moves fun result => ?_
  cases result with
  | none => exact .pure _
  | some r => exact .bind writeLtx_calls fun _ => .pure _

/-! ### Calls of a watcher that is behind its cache -/

/-- From TXIDs behind the cache the call leads to others behind it; if it stops, the durable cursor is. -/
abbrev Leads (txids : List Nat) (x : Run E α) (txids' : α → List Nat) : Prop :=
  Triple (Live txids) x (fun a => Live (txids' a)) fun _ => Recorded

omit [SqliteEnv E A] in
theorem leads_calls {x : Run E α} (h : Moves (Calls ltx N) x) (hN : ∀ txid, N txid → txid ∈ txids) :
    Leads txids x fun _ => txids :=
  h.triple (fun _ _ hw hcalls => hcalls.live hw hN) fun _ _ hw hcalls => (hcalls.live hw hN).disk

omit [SqliteEnv E A] in
theorem leads_frame {x : Run E α} (h : Moves SameCache x) : Leads txids x fun _ => txids := by
  have hlive : ∀ {w w' : World E}, SameCache w w' → Live txids w → Live txids w' := by
    intro w w' hsame hw
    refine ⟨fun p hp => ?_, fun txid hmem => ?_⟩
    · rw [hsame.2] at hp
      rw [hsame.1]
      exact hw.recorded p hp
    · rw [hsame.1]
      exact hw.reaches txid hmem
  exact h.triple (fun _ _ hw hsame => hlive hsame hw) fun _ _ hw hsame => (hlive hsame hw).disk

omit [SqliteEnv E A] in
theorem leads_pure {a : α} {txids' : α → List Nat} (h : txids' a ⊆ txids) : Leads txids (pure a : Run E α) txids' :=
  fun _ hw => ⟨hw.recorded, fun txid hmem => hw.reaches txid (h hmem)⟩

omit [SqliteEnv E A] in
theorem leads_get {f : World E → Run E α} {txids' : α → List Nat} (h : ∀ w, Leads txids (f w) txids') :
    Leads txids (get >>= f) txids' :=
  fun w hw => h w w hw

omit [SqliteEnv E A] in
/-- The retries: an attempt that fails is a call on the cache all the same. -/
theorem leads_retry {attempt : Oracle A → Run E α} {txids' : α → List Nat}
    (hcalls : ∀ o, Moves (Calls ltx fun _ => False) (attempt o)) (h : ∀ o, Leads txids (attempt o) txids') :
    Leads txids (withRetry attempt first rest) txids' := by
  induction rest generalizing first with
  | nil => exact h first
  | cons next rest ih =>
    intro w hw
    have hfirst := h first w hw
    simp only [withRetry]
    cases hres : attempt first w with
    | ok a w' =>
      rw [hres] at hfirst
      exact hfirst
    | error e w' =>
      rw [hres] at hfirst
      cases e with
      | err msg => exact ih w' (((hcalls first).of_error hres).live hw fun _ => False.elim)
      | crash => exact hfirst
      | stuck => exact hfirst

omit [SqliteEnv E A] in
theorem triple_same {x : Run E α} (h : Moves SameCache x) :
    Triple (SameCache w) x (fun _ => SameCache w) fun _ => SameCache w :=
  h.triple (IsTrans.trans w) (IsTrans.trans w)

/-- A file that was cached: its TXID is pending, also on disk. -/
theorem writeLtx_leads {bytes : Bytes} {isSnapshot : Bool} :
    Leads txids (writeLtx t o txid bytes isSnapshot) fun _ => txid :: txids := by
  intro w hw
  have hcalls : Moves (Calls t.ltx fun _ => False) (writeLtx t o txid bytes isSnapshot) := writeLtx_calls
  cases hres : writeLtx t o txid bytes isSnapshot w with
  | error e w' => exact ((hcalls.of_error hres).live hw fun _ => False.elim).disk
  | ok a w' =>
    have hlive := (hcalls.of_ok hres).live hw fun _ => False.elim
    have hrun := returns_of_ok hres
    simp only [writeLtx, returns_bind] at hrun
    obtain ⟨_, w₁, -, _, w₂, hupdate, -, rfl⟩ := hrun
    obtain ⟨hcache, -⟩ := Triple.of_ok (updateManifest_cache w₁) rfl hupdate
    have hpending : w₂.cache.manifest.Reaches txid := by
      rw [hcache]
      exact .inr ⟨txid, .inl (mem_insertTxid.mpr (.inr rfl)), le_rfl⟩
    refine ⟨hlive.recorded, forall_mem_cons.mpr ⟨⟨hpending, ?_⟩, hlive.reaches⟩⟩
    rw [hcache] at hpending ⊢
    exact hpending

/-- The TXID of what is published: that of the watcher, or of a file in the cache. -/
theorem publishShadow_leads {task : Task ShadowWatchState} (hcached : cfg.cached = true)
    (hmem : task.st.currentTxid ∈ txids) :
    Leads txids (publishShadow t cfg task first rest) fun r => r.1.newCurrentTxid :: txids := by
  have hsync : ∀ o : Oracle A, Leads txids (syncShadowToCache t task.st o) fun out => out.newCurrentTxid :: txids := by
    intro o
    refine .bind (leads_frame encodeShadowToLtx_moves) fun result => ?_
    cases result with
    | none => exact leads_pure (cons_subset.mpr ⟨hmem, Subset.refl _⟩)
    | some r => exact .bind writeLtx_leads fun _ => leads_pure (Subset.refl _)
  rw [publishShadow, if_pos hcached]
  exact .bind (leads_retry (fun _ => syncShadowToCache_calls) hsync) fun out => leads_pure (Subset.refl _)

theorem copyToShadow_leads (hmem : st.currentTxid ∈ txids) :
    Leads txids (copyToShadow st o : Run E ShadowWatchState) fun st' => st'.currentTxid :: txids := by
  refine .bind (leads_frame copyFrames_moves) fun r => leads_pure (cons_subset.mpr ⟨?_, Subset.refl _⟩)
  split
  · exact hmem
  · exact hmem

theorem advanceCursor_txid {segments : Lib.Store (Nat × Nat) Bytes} {pageSize : UInt32} {rounds : Nat}
    {st st' : ShadowWatchState} (h : advanceCursor segments pageSize rounds st = .ok st') :
    st'.currentTxid = st.currentTxid := by
  induction rounds generalizing st with
  | zero =>
    cases h
    rfl
  | succ rounds ih =>
    simp only [advanceCursor] at h
    split at h
    · cases h
      rfl
    split at h
    · split at h
      · cases h
      split at h
      · cases h
      exact (ih h :)
    · exact (ih h :)

theorem saveProgress_leads (ltx : LtxCrate) (hmem : st.currentTxid ∈ txids) :
    Leads txids (saveProgress o st : Run E Unit) fun _ => txids := by
  have hcalls : Moves (Calls ltx (· = st.currentTxid)) (saveProgress o st : Run E Unit) :=
    performWrite_moves fun _ => ⟨.refl, .inr ⟨_, rfl, rfl⟩⟩
  exact leads_calls hcalls fun txid heq => heq ▸ hmem

theorem applyShadowSyncResult_leads (ltx : LtxCrate) {out : ShadowSyncOutput}
    (hmem : st.currentTxid ∈ txids) (hout : out.newCurrentTxid ∈ txids) :
    Leads txids (applyShadowSyncResult o st out : Run E ShadowWatchState) fun st' => [st'.currentTxid] := by
  have happly : (st.apply out).currentTxid ∈ txids := by
    rw [ShadowWatchState.apply]
    split
    · exact hmem
    · exact hout
  refine .bind (leads_frame perform_moves) fun _ => leads_get fun w => ?_
  dsimp only
  split
  · exact fun w' hw' => hw'.disk
  · next st' hcursor =>
    have hst' : st'.currentTxid ∈ txids := advanceCursor_txid hcursor ▸ happly
    exact .bind (saveProgress_leads ltx hst') fun _ => leads_pure (by simpa using hst')

section

variable {task : Task ShadowWatchState}

theorem shadowTick_leads (hcached : cfg.cached = true) :
    Leads [task.st.currentTxid] (shadowTick t cfg task first rest) fun task' => [task'.st.currentTxid] := by
  refine .bind (copyToShadow_leads mem_cons_self) fun st => ?_
  refine .bind (publishShadow_leads hcached mem_cons_self) fun result => ?_
  refine .bind (applyShadowSyncResult_leads t.ltx (mem_cons_of_mem _ mem_cons_self) mem_cons_self) fun st' => ?_
  exact leads_pure (Subset.refl _)

theorem drainShadow_leads (hcached : cfg.cached = true) :
    Leads [task.st.currentTxid] (drainShadow t cfg task first rest) fun r => [r.1.currentTxid, r.2.1.newCurrentTxid] := by
  refine .bind (copyToShadow_leads mem_cons_self) fun st => ?_
  refine .bind (publishShadow_leads hcached mem_cons_self) fun result => ?_
  exact leads_pure (by simp)

theorem checkpointDrained_leads (ltx : LtxCrate) {out : ShadowSyncOutput} {queue : List Nat} :
    Leads [st.currentTxid, out.newCurrentTxid] (checkpointDrained cfg st out queue o : Run E (Task ShadowWatchState))
      fun task => [task.st.currentTxid] := by
  have hrest : Leads [st.currentTxid, out.newCurrentTxid] (do
      let st ← applyShadowSyncResult o st out
      shadowCheckpoint o
      if 0 < st.shadowSyncGeneration then cleanupSegments st.shadowSyncGeneration
      return ⟨st, queue⟩ : Run E (Task ShadowWatchState)) fun task => [task.st.currentTxid] := by
    refine .bind (applyShadowSyncResult_leads ltx (by simp) (by simp)) fun st' => ?_
    refine .bind (leads_frame shadowCheckpoint_moves) fun _ => ?_
    split
    · exact .bind (leads_frame cleanupSegments_moves) fun _ => leads_pure (Subset.refl _)
    · exact leads_pure (Subset.refl _)
  refine leads_get fun w => ?_
  split
  · exact .bind (leads_frame fail_moves) fun _ => hrest
  · exact hrest

/-- A snapshot of the loop or the startup, under a TXID that the cache reaches, and the record of the cursor `next`
    makes of it. -/
theorem snapshot_leads (next : ShadowWatchState → ShadowWal → ShadowWatchState)
    (hnext : ∀ st shadow, (next st shadow).currentTxid = st.currentTxid)
    (hbehind : ∀ st' w', shadowSnapshot t st first rest w = .ok st' w' → w.cache.Reaches st'.currentTxid) :
    Triple (fun w' => w' = w ∧ Live [st.currentTxid] w) (do
      match ← logged (some <$> shadowSnapshot t st first rest) none with
      | none => return st
      | some st' =>
        let shadow := (← get).shadow
        saveProgress first (next st' shadow)
        return next st' shadow : Run E ShadowWatchState) (fun st' => Live [st'.currentTxid]) fun _ => Recorded := by
  have hcalls : Moves (Calls t.ltx fun _ => False) (shadowSnapshot t st first rest) :=
    shadowSnapshot_moves fun _ _ _ => storeObject_calls
  have hsave : ∀ st' : ShadowWatchState, Leads [st'.currentTxid] (do
      let shadow := (← get).shadow
      saveProgress first (next st' shadow)
      return next st' shadow : Run E ShadowWatchState) fun st' => [st'.currentTxid] := by
    intro st'
    refine leads_get fun w' => .bind (saveProgress_leads t.ltx (by simp [hnext])) fun _ => leads_pure ?_
    rw [hnext]
    exact Subset.refl _
  refine .bind (M := fun result w' => Live [(result.getD st).currentTxid] w') ?_ fun result => ?_
  · rintro w' ⟨rfl, hw⟩
    have hmap : (some <$> shadowSnapshot t st first rest) w' = (shadowSnapshot t st first rest >>= fun st' =>
      pure (some st')) w' := rfl
    simp only [logged, hmap]
    cases hres : shadowSnapshot t st first rest w' with
    | ok st' w₁ =>
      rw [bind_of_ok hres]
      have hlive := (hcalls.of_ok hres).live hw fun _ => False.elim
      refine ⟨hlive.recorded, forall_mem_singleton.mpr ?_⟩
      exact (reaches_kept t.ltx _).steps (hbehind st' w₁ hres) (hcalls.of_ok hres).1
    | error e w₁ =>
      have hlive := (hcalls.of_error hres).live hw fun _ => False.elim
      have hbind : (shadowSnapshot t st first rest >>= fun st' => pure (some st')) w' = .error e w₁ := by
        show EStateM.bind _ _ w' = _
        rw [EStateM.bind, hres]
      rw [hbind]
      cases e with
      | err msg => exact hlive
      | crash => exact hlive.disk
      | stuck => exact hlive.disk
  · cases result with
    | none => exact leads_pure (Subset.refl _)
    | some st' => exact hsave st'

/-! ### Startup -/

/-- What opening the cache finds on disk it has in memory. -/
theorem openCache_reaches (ltx : LtxCrate) :
    Triple (SameCache w) (openCache o : Run E Unit)
      (fun _ w' => w'.progress = w.progress ∧
        ∀ txid, (w.cache.saved.getD .default).Reaches txid → w'.cache.Reaches txid)
      (fun _ w' => w'.progress = w.progress ∧
        ∀ txid, (w.cache.saved.getD .default).Reaches txid → (w'.cache.saved.getD .default).Reaches txid) := by
  refine .get_bind fun w₁ hw₁ => ?_
  obtain ⟨hcache, hprogress⟩ := hw₁
  dsimp only
  split
  · rintro w' rfl
    exact ⟨hprogress, fun txid h => hcache ▸ h⟩
  next m hnew =>
  rw [hcache] at hnew
  have hreaches : ∀ stored txid, (w.cache.saved.getD .default).Reaches txid →
      (w.cache.update stored m).Reaches txid := by
    intro stored txid h
    have hm := (reaches_kept ltx txid).newAt h hnew
    exact LocalCache.Both.update (c := { w.cache with manifest := m }) ⟨hm, h⟩ hm
  split
  · rintro w' rfl
    refine ⟨hprogress, fun txid h => ?_⟩
    show LocalCache.Reaches { w'.cache with manifest := m } txid
    rw [hcache]
    exact hreaches false txid h
  · refine Triple.consequence (updateManifest_cache w₁) (fun _ h => h) (fun _ w' h => ?_) fun _ w' h => ?_
    · refine ⟨h.2.trans hprogress, fun txid htxid => ?_⟩
      rw [h.1, hcache]
      exact hreaches true txid htxid
    · obtain ⟨stored, h, hsame⟩ := h
      refine ⟨hsame.trans hprogress, fun txid htxid => ?_⟩
      rw [h, hcache]
      exact (hreaches stored txid htxid).2

theorem loadProgress_progress {name : String} :
    Triple (SameCache w) (loadProgress name o : Run E (Option ShadowProgress))
      (fun r w' => SameCache w w' ∧ r = w.progress) fun _ => SameCache w := by
  refine .bind (triple_same perform_moves) fun _ => .get_bind fun w₁ hw₁ => ?_
  split
  · next hnone =>
    rintro w' rfl
    exact ⟨hw₁, hnone.symm.trans hw₁.2⟩
  next p hp =>
  split
  · rintro w' rfl
    exact hw₁
  · rintro w' rfl
    exact ⟨hw₁, hp.symm.trans hw₁.2⟩

/-- The watcher starts at the TXID of its durable cursor or, if there is none, of the manifest of the stream. -/
theorem resumeShadow_txid {checksum : Option UInt64} :
    Triple (SameCache w) (resumeShadow cfg checksum o : Run E ShadowWatchState)
      (fun st w' => SameCache w w' ∧
        st.currentTxid = w.progress.elim (cfg.manifest.elim 0 Prod.fst) ShadowProgress.currentTxid)
      fun _ => SameCache w := by
  refine .bind loadProgress_progress fun result => ?_
  cases result with
  | none =>
    rintro w' ⟨hsame, hnone⟩
    exact ⟨hsame, by rw [← hnone]; rfl⟩
  | some p =>
    rintro w' ⟨hsame, hsome⟩
    exact ⟨hsame, by rw [← hsome]; rfl⟩

theorem bootShadow_leads (hcached : cfg.cached = true) (hrecorded : Recorded w)
    (hstart : w.progress = none → (w.cache.saved.getD .default).Reaches (cfg.manifest.elim 0 Prod.fst)) :
    Triple (· = w) (bootShadow t cfg o) (fun task => Live [task.st.currentTxid]) fun _ => Recorded := by
  have hsame : ∀ w' : World E, SameCache w w' → Recorded w' := by
    rintro w' ⟨hcache, hprogress⟩ p hp
    rw [hcache]
    exact hrecorded p (hprogress ▸ hp)
  have hcurrent : (w.cache.saved.getD .default).Reaches
      (w.progress.elim (cfg.manifest.elim 0 Prod.fst) ShadowProgress.currentTxid) := by
    cases hprogress : w.progress with
    | none => exact hstart hprogress
    | some p => exact hrecorded p hprogress
  refine .bind (M := fun _ => SameCache w) (.consequence (triple_same seededChecksum_moves) ?_ (fun _ _ h => h)
    fun _ => hsame) fun checksum => ?_
  · rintro w' rfl
    exact ⟨rfl, rfl⟩
  refine .bind ((triple_same newShadow_moves).post (fun _ _ h => h) fun _ => hsame) fun _ => ?_
  refine .bind (resumeShadow_txid.post (fun _ _ h => h) fun _ => hsame) fun st => ?_
  rw [resumeUploads, if_pos hcached]
  refine .bind (M := fun _ => Live [st.currentTxid]) ?_ fun queue => leads_pure (Subset.refl _)
  rintro w₁ ⟨hw₁, hst⟩
  have hopen := openCache_reaches t.ltx (o := o) w₁ hw₁
  refine Triple.bind (P := (· = w₁)) (M := fun _ => Live [st.currentTxid]) (fun w' hw' => ?_) (fun _ => ?_) w₁ rfl
  · subst hw'
    cases hres : (openCache o : Run E Unit) w' with
    | ok a w₂ =>
      rw [hres] at hopen
      refine ⟨fun p hp => hopen.2 _ (hrecorded p (hopen.1 ▸ hp)), forall_mem_singleton.mpr ?_⟩
      exact hopen.2 _ (hst ▸ hcurrent)
    | error e w₂ =>
      rw [hres] at hopen
      exact fun p hp => hopen.2 _ (hrecorded p (hopen.1 ▸ hp))
  · exact .get_bind fun w₂ hw₂ => fun w' hw' => hw' ▸ hw₂

end

/-! ### The process -/

/-- A snapshot that the watcher stores gets a TXID that the cache reaches, and so has the start of a watcher that finds
    no durable cursor. The run is one of the shadow watcher. -/
def BehindCache (t : Tools E) (cfg : WatchConfig) : Action E A → World E × Process → Prop
  | .bootIndependent _, _ => False
  | .bootShadow _, (w, _) => w.progress = none → (w.cache.saved.getD .default).Reaches (cfg.manifest.elim 0 Prod.fst)
  | .startup first rest, (w, .copied task _) | .snapshot first rest, (w, .shadow task) =>
    ∀ st' w', shadowSnapshot t task.st first rest w = .ok st' w' → w.cache.Reaches st'.currentTxid
  | _, _ => True

/-- **What holds in each phase**: the TXIDs of the watcher are behind the cache. -/
def Behind : World E × Process → Prop
  | (w, .idle) | (w, .ended) => Recorded w
  | (w, .opened task) | (w, .copied task _) | (w, .shadow task) => Live [task.st.currentTxid] w
  | (w, .draining st out _) => Live [st.currentTxid, out.newCurrentTxid] w
  | _ => False

omit [SqliteEnv E A] in
theorem leadsTo_behind {P : World E → Prop} {x : Run E α} {txids' : α → List Nat} {next : α → Process}
    (h : Triple P x (fun a => Live (txids' a)) fun _ => Recorded) (hw : P w)
    (hnext : ∀ a (w' : World E), Live (txids' a) w' → Behind (w', next a)) : Behind (leadsTo (x w) next) := by
  have hrun := h w hw
  cases hres : x w with
  | ok a w' =>
    rw [hres] at hrun
    exact hnext a w' hrun
  | error e w' =>
    rw [hres] at hrun
    exact hrun

omit [SqliteEnv E A] in
/-- Calls on the cache beside the process. -/
theorem Behind.calls {p : Process} (h : Behind (w, p)) (hlive : p ≠ .idle) (hended : p ≠ .ended)
    (hcalls : Calls ltx (fun _ => False) w w') : Recorded w' ∧ ∀ queue, Behind (w', p.setQueue queue) := by
  have hkeeps : ∀ {txids}, Live txids w → Live txids w' := fun hw => hcalls.live hw fun _ => False.elim
  cases p with
  | idle => exact absurd rfl hlive
  | ended => exact absurd rfl hended
  | opened | copied | shadow | draining => exact ⟨(hkeeps h).disk, fun _ => (hkeeps h :)⟩
  | _ => exact h.elim

/-- **Every step of a watcher that stores its snapshots behind the cache stays behind it.** -/
theorem act_behind (hcached : cfg.cached = true) {a : Action E A} {s s' : World E × Process}
    (h : act t cfg a s = some s') (hbehind : BehindCache t cfg a s) (hs : Behind s) : Behind s' := by
  rw [act.eq_def] at h
  split at h
  · exact hbehind.elim
  · exact hs.elim
  · exact hs.elim
  · exact hs.elim
  · exact hs.elim
  · next o w =>
    cases h
    exact leadsTo_behind (bootShadow_leads hcached hs hbehind) rfl fun _ _ hw => hw
  · next o w task =>
    cases h
    have hcopy : Leads [task.st.currentTxid] (initialShadowCopy task.st o : Run E _) fun r => [r.1.currentTxid] := by
      refine leads_get fun w => ?_
      split
      · exact leads_pure (Subset.refl _)
      · refine leads_get fun w => .bind (copyToShadow_leads mem_cons_self) fun st => leads_get fun w => ?_
        exact leads_pure (by simp)
    exact leadsTo_behind hcopy hs fun _ _ hw => hw
  · next first rest w task eager =>
    split at h
    · cases h
      exact leadsTo_behind (snapshot_leads ShadowWatchState.reanchored (fun _ _ => rfl) hbehind) ⟨rfl, hs⟩
        fun _ _ hw => hw
    · cases h
      exact hs
  · next first rest w task =>
    cases h
    exact leadsTo_behind (shadowTick_leads hcached) hs fun _ _ hw => hw
  · next first rest w task =>
    cases h
    exact leadsTo_behind (snapshot_leads (fun st _ => st) (fun _ _ => rfl) hbehind) ⟨rfl, hs⟩
      fun _ _ hw => hw
  · next first rest w task =>
    cases h
    exact leadsTo_behind (drainShadow_leads hcached) hs fun _ _ hw => hw
  · next o w st out queue =>
    cases h
    exact leadsTo_behind (checkpointDrained_leads t.ltx) hs fun _ _ hw => hw
  · next txid first rest w p =>
    split at h
    swap
    · cases h
    next hmem =>
    have hidle : p ≠ .idle := by
      rintro rfl
      cases hmem
    have hended : p ≠ .ended := by
      rintro rfl
      cases hmem
    split at h
    · next hrun =>
      cases h
      exact (hs.calls hidle hended (uploadTxid_calls.of_ok hrun)).2 _
    · next hrun =>
      cases h
      exact (hs.calls hidle hended (uploadTxid_calls.of_error hrun)).2 _
    · -- a crash ends the process; what is on disk is still behind the cache
      next hrun =>
      cases h
      exact (hs.calls hidle hended (uploadTxid_calls.of_error hrun)).1
  · next acts w p =>
    split at h
    swap
    · cases h
    next w' hrun =>
    cases h
    -- SQLite touches neither the cache nor the durable cursor
    obtain ⟨hcache, hprogress⟩ : SameCache w w' := interfere_moves.of_ok hrun
    have hlive : ∀ {txids}, Live txids w → Live txids w' := fun hw =>
      ⟨fun p hp => hcache ▸ hw.recorded p (hprogress ▸ hp), fun txid hmem => hcache ▸ hw.reaches txid hmem⟩
    have hdisk : Recorded w → Recorded w' := fun hw p hp => hcache ▸ hw p (hprogress ▸ hp)
    cases p with
    | idle | ended => exact hdisk hs
    | opened | copied | shadow | draining => exact hlive hs
    | _ => exact hs.elim
  · cases h

omit [SqliteEnv E A] in
/-- Where a process is killed, what is on disk is behind the cache. -/
theorem Behind.disk {s : World E × Process} (h : Behind s) : Recorded s.1 := by
  obtain ⟨w, p⟩ := s
  cases p with
  | idle | ended => exact h
  | opened | copied | shadow | draining => exact Live.disk h
  | _ => exact h.elim

/-- The states of shadow watchers with a cache that are started one after another, the first one in `w₀`. Each process
    may be killed at any time. -/
inductive Watched (t : Tools E) (cfg : WatchConfig) (C : Action E A → World E × Process → Prop) (w₀ : World E) :
    World E × Process → Prop
  | start : Watched t cfg C w₀ (w₀.restart, .idle)
  | step {a : Action E A} {s s' : World E × Process} : Watched t cfg C w₀ s → C a s → Step t cfg a s s' →
    Watched t cfg C w₀ s'
  | restart {s : World E × Process} : Watched t cfg C w₀ s → Watched t cfg C w₀ (s.1.restart, .idle)

theorem Watched.behind {w₀ : World E} {s : World E × Process} (hcached : cfg.cached = true) (hstart : Recorded w₀)
    (h : Watched (A := A) t cfg (BehindCache t cfg) w₀ s) : Behind s := by
  induction h with
  | start => exact hstart
  | restart _ ih => exact ih.disk
  | step _ hbehind hstep ih =>
    cases hstep with
    | act hact => exact act_behind hcached hact hbehind ih
    | @maintain w p b ha hp hmaintained =>
      cases p with
      | shadow task => exact ⟨ih.recorded, ih.reaches⟩
      | independent task => exact ih.elim
      | _ => cases hp

/-- **Where the snapshots of a watcher stay behind the cache, a checkpoint passes the gate as soon as the cache has
    confirmed all its uploads**: it goes on as one that has nothing to wait for. -/
theorem gate_passes (t : Tools E) (cfg : WatchConfig) (w₀ w : World E) (st : ShadowWatchState) (out : ShadowSyncOutput)
    (queue : List Nat) (o : Oracle A) (hcached : cfg.cached = true) (hstart : Recorded w₀)
    (hrun : Watched (A := A) t cfg (BehindCache t cfg) w₀ (w, .draining st out queue))
    (hpending : w.cache.manifest.pending = []) (hfailed : w.cache.manifest.failed = []) :
    w.cache.manifest.durable out.newCurrentTxid = true ∧
      checkpointDrained cfg st out queue o w = checkpointDrained { cfg with cached := false } st out queue o w := by
  have hlive : Live [st.currentTxid, out.newCurrentTxid] w := hrun.behind hcached hstart
  have hle : out.newCurrentTxid ≤ w.cache.manifest.lastUploadedTxid := by
    rcases (hlive.reaches out.newCurrentTxid (by simp)).1 with hle | ⟨f, hf, -⟩
    · exact hle
    · simp [hpending, hfailed] at hf
  have hdurable : w.cache.manifest.durable out.newCurrentTxid = true := by
    simp [CacheManifest.durable, hpending, hfailed, hle]
  refine ⟨hdurable, ?_⟩
  have hget : ∀ f : World E → Run E (Task ShadowWatchState), (get >>= f) w = f w w := fun f => rfl
  simp only [checkpointDrained, hget, hdurable, Bool.not_true, Bool.false_eq_true, and_false, false_and, if_false]

end Watcher

/-! ### A watcher with nothing new in the WAL -/

section Calm

variable {t : Tools (Db 512)} {b : LtxBucket} {p : Option ShadowProgress} {c : LocalCache} {ks : List LtxKey}
  {onStartup : Bool} {queue : List Nat} {st : ShadowWatchState}

/-- Nothing fails. -/
abbrev calm : Oracle (Sqlite.Action 512) := quiet

/-- A database without a WAL, and a watcher's world around it. -/
def calmWorld (bucket : LtxBucket) (progress : Option ShadowProgress) (cache : LocalCache) (stored : List LtxKey) :
    World (Db 512) where
  db := ⟨firstPage, firstPage, none, false, [], 0, 0, 0⟩
  bucket := bucket
  segments := Lib.Store.empty
  progress := progress
  cache := cache
  shadow := ⟨0, 0, 0, 4096, (0, 0), none, false⟩
  stored := stored

/-- With the disk cache on, and a snapshot at the start if asked for. -/
def cachedConfig (onStartup : Bool) : WatchConfig := ⟨"app", true, onStartup, none⟩

def calmState (txid : Nat) (checksum : Option UInt64) : ShadowWatchState := ⟨"app", txid, checksum, 0, 0, 0⟩

theorem newShadow_calm : newShadow calm (calmWorld b p c ks) =
    .ok () (calmWorld b p c ks) := by
  have halign : ∀ pageSize, alignSegments pageSize Lib.Store.empty = Lib.Store.empty := by
    intro pageSize
    unfold alignSegments
    split <;> rfl
  have hrun : Returns (newShadow calm) (calmWorld b p c ks)
      fun _ w => w = calmWorld b p c ks := by
    simp only [newShadow, returns_bind, returns_perform (o := calm) rfl rfl, returns_get]
    rw [show Wal.readHeader (SqliteEnv.wal (calmWorld b p c ks).db) = .ok none from rfl]
    simp only [returns_bind, returns_performWrite (o := calm) rfl rfl, returns_modify, openCheckpointBlocker,
      returns_perform (o := calm) rfl rfl, modifyShadow,
      show quiet.blocker = ([] : List (Sqlite.Action 512)) from rfl, interfere, returns_pure]
    simp only [calmWorld, halign]
    rfl
  obtain ⟨_, w, hrun, rfl⟩ := hrun
  exact hrun

theorem boot_calm (t : Tools (Db 512)) {w : World (Db 512)} (st : Option UInt64 → ShadowWatchState)
    (hst : ∀ checksum, resumeShadow (cachedConfig onStartup) checksum calm
      (calmWorld b p c ks) = .ok (st checksum) (calmWorld b p c ks))
    (hopen : resumeUploads true calm (calmWorld b p c ks) =
      .ok queue w) :
    ∃ checksum, act t (cachedConfig onStartup) (.bootShadow quiet) (calmWorld b p c ks, .idle) =
      some (w, .opened ⟨st checksum, queue⟩) := by
  have hseed : seededChecksum t (cachedConfig onStartup) quiet (calmWorld b p c ks) =
      .ok (some (computeDbChecksum t.ltx t.sha64 firstPage)) (calmWorld b p c ks) := rfl
  have hrun : bootShadow t (cachedConfig onStartup) quiet (calmWorld b p c ks) =
      .ok ⟨st _, queue⟩ w :=
    (bind_of_ok hseed).trans ((bind_of_ok newShadow_calm).trans ((bind_of_ok (hst _)).trans ((bind_of_ok hopen).trans rfl)))
  exact ⟨_, congrArg (fun r => some (leadsTo r Process.opened)) hrun⟩

theorem copy_calm {txid : Nat} {checksum : Option UInt64} :
    act t (cachedConfig onStartup) (.initialCopy quiet) (calmWorld b p c ks,
      .opened ⟨calmState txid checksum, queue⟩) =
    some (calmWorld b p c ks, .copied ⟨calmState txid checksum, queue⟩ false) := rfl

/-- A snapshot is stored under the TXID after those of the bucket. -/
theorem snapshot_calm (ht : ∀ header pages post, ∃ bytes, t.encode header pages post = .ok bytes)
    (p : Option ShadowProgress) (c : LocalCache) (ks : List LtxKey) (txid : Nat) (checksum : Option UInt64)
    {head generation : Nat} (hstate : discoverLegacyState b = (head, generation)) :
    ∃ bytes checksum', shadowSnapshot t (calmState txid checksum) quiet [] (calmWorld b p c ks) =
      .ok (calmState (head + 1) (some checksum')) (calmWorld (b.put (.file (generation + 1) 1 (head + 1)) bytes) p c
        (.file (generation + 1) 1 (head + 1) :: ks)) := by
  obtain ⟨bytes, checksum', hsnap⟩ := @snapshotDatabaseToStorage_quiet t (calmWorld b p c ks) _ _ ht
    (show Sync.getPageSize firstPage = .ok 512 by decide +kernel) hstate
  refine ⟨bytes, checksum', ?_⟩
  have htake : ∀ watched, takeSnapshotToStorage t watched calm
      (calmWorld b p c ks) = .ok ⟨1, 0, head + 1, some checksum', true, watched.walGeneration + 1,
        none, none⟩ (calmWorld (b.put (.file (generation + 1) 1 (head + 1)) bytes) p c
        (.file (generation + 1) 1 (head + 1) :: ks)) := fun watched => (bind_of_ok hsnap).trans rfl
  have hretry : ∀ watched, takeSnapshotWithRetry t watched calm []
      (calmWorld b p c ks) = _ := fun watched => (bind_of_ok (htake watched)).trans rfl
  exact (bind_of_ok (hretry _)).trans rfl

theorem drain_calm {txid : Nat} {checksum : Option UInt64} :
    act t (cachedConfig onStartup) (.drain quiet []) (calmWorld b p c ks,
      .shadow ⟨calmState txid checksum, queue⟩) =
    some (calmWorld b p c ks, .draining (calmState txid checksum) ⟨0, 0, txid, checksum⟩ queue) := by
  have hsegments : ∀ generation, listSegments Lib.Store.empty generation = [] := by
    intro generation
    rw [listSegments, show (Lib.Store.empty : Lib.Store (Nat × Nat) Bytes).entries = [] from rfl, filter_nil,
      mergeSort_nil, map_nil]
  have hread : readShadow calm (calmState txid checksum)
      (calmWorld b p c ks) = .ok ⟨[], [], 0, 0, 0⟩ (calmWorld b p c ks) := by
    show EStateM.Result.ok (foldShadow (shadowFrames _ _ 0 (listSegments Lib.Store.empty _))) _ = _
    rw [hsegments]
    rfl
  have hencode : encodeShadowToLtx t quiet (calmState txid checksum) (calmWorld b p c ks) =
      .ok none (calmWorld b p c ks) := (bind_of_ok hread).trans rfl
  have hsync : syncShadowToCache t (calmState txid checksum) quiet (calmWorld b p c ks) =
      .ok ⟨0, 0, txid, checksum⟩ (calmWorld b p c ks) := (bind_of_ok hencode).trans rfl
  have hpublish : publishShadow t (cachedConfig onStartup) ⟨calmState txid checksum, queue⟩ quiet []
      (calmWorld b p c ks) =
      .ok (⟨0, 0, txid, checksum⟩, queue) (calmWorld b p c ks) := (bind_of_ok hsync).trans rfl
  have hcopy : copyToShadow (calmState txid checksum) calm
      (calmWorld b p c ks) = .ok (calmState txid checksum) (calmWorld b p c ks) :=
    rfl
  have hrun : drainShadow t (cachedConfig onStartup) ⟨calmState txid checksum, queue⟩ quiet []
      (calmWorld b p c ks) =
      .ok (calmState txid checksum, ⟨0, 0, txid, checksum⟩, queue) (calmWorld b p c ks) :=
    (bind_of_ok hcopy).trans ((bind_of_ok hpublish).trans rfl)
  exact congrArg (fun r => some (leadsTo r fun r => Process.draining r.1 r.2.1 r.2.2)) hrun

/-- The cursor that is recorded behind a snapshot. -/
def calmProgress (txid : Nat) (checksum : Option UInt64) : ShadowProgress := ⟨txid, checksum, 0, 0, 0, none, none⟩

theorem logged_snapshot {w w' : World (Db 512)} {st' : ShadowWatchState}
    (h : shadowSnapshot t st calm [] w = .ok st' w') :
    logged (some <$> shadowSnapshot t st quiet []) none w = .ok (some st') w' := by
  have hmap : (some <$> shadowSnapshot t st quiet []) w = .ok (some st') w' := by
    rw [map_eq_pure_bind, bind_of_ok h]
    rfl
  rw [logged, hmap]

/-- **The first snapshot of a watcher is stored, and nothing is cached: the checkpoint waits for TXID 1 in vain.** So it
    is with every encoder that returns. -/
theorem gate_stuck : ∃ (cfg : WatchConfig) (w₀ : World (Db 512)), cfg.cached = true ∧ w₀.bucket = Lib.Store.empty ∧
    ∀ t : Tools (Db 512), (∀ header pages post, ∃ bytes, t.encode header pages post = .ok bytes) →
      ∃ w st out queue, Watched (A := Sqlite.Action 512) t cfg (fun _ _ => True) w₀ (w, .draining st out queue) ∧
        w.stored = [.file 1 1 1] ∧ out.frameCount = 0 ∧ w.cache.manifest.pending = [] ∧ w.cache.manifest.failed = [] ∧
        ∀ o : Oracle (Sqlite.Action 512),
          checkpointDrained cfg st out queue o w = .error (.err "app: cannot checkpoint shadow WAL") w := by
  refine ⟨cachedConfig true, calmWorld Lib.Store.empty none ⟨.empty, .default, none⟩ [], rfl, rfl, fun t ht => ?_⟩
  have hopen : resumeUploads true calm
      (calmWorld Lib.Store.empty none ⟨.empty, .default, none⟩ []) = .ok CacheManifest.default.pendingUploads
        (calmWorld Lib.Store.empty none .created []) := rfl
  obtain ⟨c, hboot⟩ := boot_calm t (calmState 0) (fun _ => rfl) hopen
  obtain ⟨bytes, checksum, hsnap⟩ := snapshot_calm ht none .created [] 0 c
    (show discoverLegacyState Lib.Store.empty = (0, 0) by decide)
  have hstartup : act t (cachedConfig true) (.startup quiet []) (calmWorld Lib.Store.empty none .created [],
      .copied ⟨calmState 0 c, CacheManifest.default.pendingUploads⟩ false) =
      some (calmWorld (Lib.Store.empty.put (.file 1 1 1) bytes) (some (calmProgress 1 (some checksum))) .created
        [.file 1 1 1], .shadow ⟨calmState 1 (some checksum), CacheManifest.default.pendingUploads⟩) := by
    have hrun : startupSnapshot t (calmState 0 c) quiet [] (calmWorld Lib.Store.empty none .created []) = _ :=
      (bind_of_ok (logged_snapshot hsnap)).trans rfl
    exact congrArg (fun r => some (leadsTo r fun st => Process.shadow ⟨st, _⟩)) hrun
  exact ⟨_, _, _, _, .step (.step (.step (.step .start trivial (.act hboot)) trivial (.act copy_calm)) trivial
    (.act hstartup)) trivial (.act drain_calm), rfl, rfl, rfl, rfl, fun _ => rfl⟩

/-- The cache of a process that died with TXID 2 not yet uploaded. -/
def cacheTwo (m : CacheManifest) : LocalCache := ⟨Lib.Store.empty.put 2 (ltxObject 2), m, some m⟩

def manifestTwo (pending : List Nat) : CacheManifest :=
  ⟨1, 1, pending, [], 5, Lib.Store.empty.put 2 ⟨5, 0, false, none, false, 2, 2⟩⟩

def calmTools : Tools (Db 512) := ⟨twoCrate 2, fun _ _ _ => .ok [], fun _ => 0, fun _ => firstPage⟩

def bucketOne : LtxBucket := ⟨[(.file 1 1 1, ltxObject 1)], by decide⟩

/-- The world of that process, with what it has stored. -/
def pendingWorld (bucket : LtxBucket) (checksum : Option UInt64) (pending : CacheManifest) (stored : List LtxKey) :
    World (Db 512) :=
  calmWorld bucket (some (calmProgress 2 checksum)) (cacheTwo pending) stored

/-- The world it is started in. -/
def resumedWorld : World (Db 512) := pendingWorld bucketOne none (manifestTwo [2]) []

/-- A process finds TXID 2 pending. It stores a snapshot under that TXID, the uploader confirms the file, and the
    checkpoint passes. -/
theorem gate_passes_pending : ∃ (w : World (Db 512)) (st : ShadowWatchState) (out : ShadowSyncOutput) (queue : List Nat),
    w.stored = [.file 0 2 2, .file 2 1 2] ∧ out.newCurrentTxid = 2 ∧
      w.cache.manifest.durable out.newCurrentTxid = true ∧
      checkpointDrained (cachedConfig false) st out queue calm w =
        checkpointDrained { cachedConfig false with cached := false } st out queue quiet w := by
  have hreaches : (cacheTwo (manifestTwo [2])).Reaches 2 :=
    ⟨.inr ⟨2, .inl (mem_singleton.mpr rfl), le_rfl⟩, .inr ⟨2, .inl (mem_singleton.mpr rfl), le_rfl⟩⟩
  have hrecorded : Recorded resumedWorld := by
    intro p hp
    cases hp
    exact hreaches.2
  have hopen : resumeUploads true calm resumedWorld
      = .ok [2] resumedWorld :=
    congrArg (EStateM.Result.ok · resumedWorld) (mergeSort_singleton 2)
  obtain ⟨c, hboot⟩ := boot_calm calmTools (fun _ => calmState 2 none) (fun _ => rfl) hopen
  obtain ⟨bytes, checksum, hsnap⟩ := snapshot_calm (t := calmTools) (fun _ _ _ => ⟨_, rfl⟩)
    (some (calmProgress 2 none)) (cacheTwo (manifestTwo [2])) [] 2 none
    (show discoverLegacyState bucketOne = (1, 1) by decide)
  have hbehind : ∀ st' w', shadowSnapshot calmTools (calmState 2 none) calm []
      resumedWorld = .ok st' w' →
      (cacheTwo (manifestTwo [2])).Reaches st'.currentTxid := by
    intro st' w' h
    cases hsnap.symm.trans h
    exact hreaches
  have hshadow : Watched calmTools (cachedConfig false) (BehindCache calmTools (cachedConfig false))
      resumedWorld (resumedWorld, .shadow ⟨calmState 2 none, [2]⟩) :=
    .step (a := .startup quiet []) (.step (a := .initialCopy quiet) (.step (a := .bootShadow quiet) .start
      (fun h => by cases h) (.act hboot)) trivial (.act copy_calm)) hbehind (.act rfl)
  have hsnapshot : act calmTools (cachedConfig false) (.snapshot quiet [])
      (resumedWorld, .shadow ⟨calmState 2 none, [2]⟩) =
      some (pendingWorld (bucketOne.put (.file 2 1 2) bytes) (some checksum) (manifestTwo [2]) [.file 2 1 2],
        .shadow ⟨calmState 2 (some checksum), [2]⟩) := by
    have hrun : periodicSnapshot calmTools (calmState 2 none) quiet [] resumedWorld = _ :=
      (bind_of_ok (logged_snapshot hsnap)).trans rfl
    exact congrArg (fun r => some (leadsTo r fun st => Process.shadow ⟨st, _⟩)) hrun
  have hupload : act calmTools (cachedConfig false) (.upload 2 quiet []) (pendingWorld (bucketOne.put (.file 2 1 2) bytes)
      (some checksum) (manifestTwo [2]) [.file 2 1 2], .shadow ⟨calmState 2 (some checksum), [2]⟩) =
      some (pendingWorld ((bucketOne.put (.file 2 1 2) bytes).put (.file 0 2 2) (ltxObject 2)) (some checksum)
        ((manifestTwo [2]).markUploaded 0 2) [.file 0 2 2, .file 2 1 2],
          .shadow ⟨calmState 2 (some checksum), []⟩) := rfl
  exact ⟨_, _, _, _, rfl, rfl, gate_passes calmTools (cachedConfig false) _ _ _ _ _ quiet rfl hrecorded
    (.step (a := .drain quiet []) (.step (a := .upload 2 quiet []) (.step (a := .snapshot quiet []) hshadow hbehind
      (.act hsnapshot)) trivial (.act hupload)) trivial (.act drain_calm)) rfl rfl⟩

end Calm

end Watch
end Walrust
