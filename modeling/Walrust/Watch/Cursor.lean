import Walrust.Watch.CacheRuns

/-!
# `Walrust.Watch.Cursor` — the durable cursor and failed uploads

Uploads are confirmed and fail in any order, and each confirmation and failure moves the cursor on from where it
stands: round by round to the end of the widest confirmed entry over the next TXID. A round asks for failed uploads at
the next TXID only, not at the others it goes over.

* `Jumps` — one round, said of the entries;
* `contiguousFrom_jumps`, `contiguousFrom_stops` — the loop makes rounds until none is left to make;
* `cursor_below_failed_iff` — when a call moves the cursor over nothing that has failed.
-/

namespace Walrust
namespace Watch

open Legacy List

variable {m : CacheManifest} {txid cursor x : Nat} {e : CacheEntry}

/-! ## One round -/

/-- The file of an entry holds the TXID. -/
def CacheEntry.Covers (txid : Nat) (e : CacheEntry) (x : Nat) : Prop :=
  (e.txidRange txid).1 ≤ x ∧ x ≤ (e.txidRange txid).2

/-- A confirmed entry covers the TXID, and holds the TXIDs up to `stop`. -/
def CacheManifest.Confirms (m : CacheManifest) (x stop : Nat) : Prop :=
  ∃ txid e, m.entries.get txid = some e ∧ e.uploaded = true ∧ e.Covers txid x ∧ (e.txidRange txid).2 = stop

/-- From one TXID to another in one round: the next TXID has not failed, and the widest confirmed entry over it ends
    there. -/
structure Jumps (m : CacheManifest) (cursor stop : Nat) : Prop where
  sound : m.failedUploadCovers (cursor + 1) = false
  confirmed : m.Confirms (cursor + 1) stop
  widest : ∀ stop', m.Confirms (cursor + 1) stop' → stop' ≤ stop

theorem CacheManifest.Confirms.le {stop : Nat} (h : m.Confirms x stop) : x ≤ stop := by
  obtain ⟨txid, e, -, -, hcovers, rfl⟩ := h
  exact hcovers.2

theorem Jumps.unique : Relator.RightUnique (Jumps m) :=
  fun _ _ _ h h' => le_antisymm (h'.widest _ h.confirmed) (h.widest _ h'.confirmed)

/-- A round stays, or goes to the end of a confirmed entry over the next TXID. -/
theorem reach_cases (m : CacheManifest) (cursor : Nat) :
    m.reach cursor = cursor ∨ m.Confirms (cursor + 1) (m.reach cursor) := by
  unfold CacheManifest.reach
  -- Over the entries read so far, all of them entries of the manifest.
  have hmem : ∀ e ∈ m.entries.entries, m.entries.get e.1 = some e.2 := fun e he => Lib.Store.get_eq_some.mpr he
  generalize m.entries.entries = read at hmem ⊢
  induction read using List.reverseRecOn with
  | nil => exact .inl rfl
  | append_singleton read e ih =>
    specialize ih fun e he => hmem e (mem_append_left _ he)
    rw [foldl_append, foldl_cons, foldl_nil]
    split
    · next hcover =>
      simp only [Bool.and_eq_true, decide_eq_true_eq] at hcover
      have hlast : m.Confirms (cursor + 1) (e.2.txidRange e.1).2 :=
        ⟨e.1, e.2, hmem e (mem_append_right _ mem_cons_self), hcover.1.1, ⟨hcover.1.2, hcover.2⟩, rfl⟩
      rcases max_choice (foldl _ cursor read) (e.2.txidRange e.1).2 with hmax | hmax
      · rw [hmax]
        refine ih.imp_left fun hstay => absurd hlast.le ?_
        rw [not_le, Nat.lt_succ_iff, ← hstay]
        exact max_eq_left_iff.mp hmax
      · rw [hmax]
        exact .inr hlast
    · exact ih

/-- No confirmed entry over the next TXID ends beyond the round. -/
theorem le_reach {stop : Nat} (h : m.Confirms (cursor + 1) stop) : stop ≤ m.reach cursor := by
  obtain ⟨txid, e, he, huploaded, hcovers, rfl⟩ := h
  unfold CacheManifest.reach
  have hmem := Lib.Store.get_eq_some.mp he
  generalize m.entries.entries = read at hmem ⊢
  induction read using reverseRecOn with
  | nil => cases hmem
  | append_singleton read e' ih =>
    rw [foldl_append, foldl_cons, foldl_nil]
    rcases mem_append.mp hmem with hmem | hmem
    · split
      · exact (ih hmem).trans (le_max_left ..)
      · exact ih hmem
    · cases mem_singleton.mp hmem
      rw [if_pos (by simp [huploaded, hcovers.1, hcovers.2])]
      exact le_max_right ..

theorem jumps_reach (hsound : m.failedUploadCovers (cursor + 1) = false) (hmoves : m.reach cursor ≠ cursor) :
    Jumps m cursor (m.reach cursor) :=
  ⟨hsound, (reach_cases m cursor).resolve_left hmoves, fun _ => le_reach⟩

/-! ## The loop -/

/-- The entries that end after the cursor. -/
def CacheManifest.ahead (m : CacheManifest) (cursor : Nat) : List (Nat × CacheEntry) :=
  m.entries.entries.filter fun e => cursor < (e.2.txidRange e.1).2

/-- A round that moves passes an entry for good: the one that covers the next TXID. -/
theorem Jumps.ahead {stop : Nat} (h : Jumps m cursor stop) : (m.ahead stop).length < (m.ahead cursor).length := by
  have hlt := h.confirmed.le
  obtain ⟨txid, e, he, -, -, hstop⟩ := h.confirmed
  have hahead : m.ahead stop = (m.ahead cursor).filter fun e => stop < (e.2.txidRange e.1).2 := by
    unfold CacheManifest.ahead
    rw [filter_filter]
    refine filter_congr fun e' _ => ?_
    rw [← Bool.decide_and, decide_eq_decide]
    omega
  rw [hahead, length_filter_lt_length_iff_exists]
  refine ⟨(txid, e), mem_filter.mpr ⟨Lib.Store.get_eq_some.mp he, decide_eq_true ?_⟩, ?_⟩
  · exact hlt.trans_eq hstop.symm
  · simp [hstop]

/-- **The loop makes rounds one after another.** -/
theorem contiguousFrom_jumps (m : CacheManifest) (rounds cursor : Nat) :
    Relation.ReflTransGen (Jumps m) cursor (m.contiguousFrom rounds cursor) := by
  induction rounds generalizing cursor with
  | zero => exact .refl
  | succ rounds ih =>
    rw [CacheManifest.contiguousFrom]
    split
    · exact .refl
    next hsound =>
    split
    · exact .refl
    next hmoves => exact .head (jumps_reach (Bool.eq_false_of_not_eq_true hsound) hmoves) (ih _)

/-- **It has rounds enough**: where it ends there is no round left to make. -/
theorem contiguousFrom_stops {rounds stop : Nat} (h : (m.ahead cursor).length < rounds) :
    ¬ Jumps m (m.contiguousFrom rounds cursor) stop := by
  induction rounds generalizing cursor with
  | zero => exact absurd h (Nat.not_lt_zero _)
  | succ rounds ih =>
    rw [CacheManifest.contiguousFrom]
    split
    · next hfailed =>
      intro hjump
      rw [hjump.sound] at hfailed
      cases hfailed
    next hsound =>
    split
    · next hstays =>
      intro hjump
      have hlt := hjump.confirmed.le
      have hle := le_reach hjump.confirmed
      omega
    next hmoves =>
    have := (jumps_reach (Bool.eq_false_of_not_eq_true hsound) hmoves).ahead
    exact ih (by omega)

/-! ## Failed uploads -/

/-- Wherever the rounds from the cursor lead, the confirmed entries over the next TXID, unless that one has failed,
    hold nothing further on that has failed. -/
def Clear (m : CacheManifest) (cursor : Nat) : Prop :=
  ∀ rest, Relation.ReflTransGen (Jumps m) cursor rest → m.failedUploadCovers (rest + 1) = false →
    ∀ stop, m.Confirms (rest + 1) stop → ∀ x, rest < x → x ≤ stop → m.failedUploadCovers x = false

theorem le_of_jumps {stop : Nat} (h : Relation.ReflTransGen (Jumps m) cursor stop) : cursor ≤ stop := by
  induction h with
  | refl => exact le_rfl
  | tail _ hjump ih => exact ih.trans (Nat.le_of_succ_le hjump.confirmed.le)

/-- The rounds do not depend on where the cursor stands. -/
theorem clear_recompute : Clear m.recomputeContiguous cursor ↔ Clear m cursor := by
  have hjumps : Jumps m.recomputeContiguous = Jumps m := by
    funext cursor stop
    exact propext ⟨fun h => ⟨h.sound, h.confirmed, h.widest⟩, fun h => ⟨h.sound, h.confirmed, h.widest⟩⟩
  unfold Clear
  rw [hjumps]
  exact Iff.rfl

/-- **The recomputation goes over nothing that has failed exactly if the entries are clear.** -/
theorem recompute_clear_iff (m : CacheManifest) :
    (∀ x, m.lastContiguousUploadedTxid < x → x ≤ m.recomputeContiguous.lastContiguousUploadedTxid →
      m.recomputeContiguous.failedUploadCovers x = false) ↔
    Clear m.recomputeContiguous m.lastContiguousUploadedTxid := by
  rw [clear_recompute]
  show (∀ x, _ → x ≤ m.contiguousFrom (m.entries.entries.length + 1) m.lastContiguousUploadedTxid →
    m.failedUploadCovers x = false) ↔ _
  have hjumps := contiguousFrom_jumps m (m.entries.entries.length + 1) m.lastContiguousUploadedTxid
  have hstops : ∀ stop, ¬ Jumps m (m.contiguousFrom (m.entries.entries.length + 1) m.lastContiguousUploadedTxid) stop :=
    fun stop => contiguousFrom_stops (Nat.lt_succ_of_le (length_filter_le ..))
  generalize m.contiguousFrom (m.entries.entries.length + 1) m.lastContiguousUploadedTxid = last at hjumps hstops ⊢
  constructor
  · intro hsound rest hrest hnext stop hconfirms x hlt hle
    -- The round from here is one of the loop's, so the loop has gone as far.
    have hjump : Jumps m rest (m.reach rest) :=
      jumps_reach hnext fun hstay => by
        have := hconfirms.le
        have := le_reach hconfirms
        omega
    have hlast : m.reach rest ≤ last := by
      rcases hjumps.total_of_right_unique Jumps.unique (hrest.tail hjump) with h | h
      · rcases Relation.ReflTransGen.cases_head h with h | ⟨next, h, -⟩
        · exact h.ge
        · exact absurd h (hstops next)
      · exact le_of_jumps h
    exact hsound x ((le_of_jumps hrest).trans_lt hlt) (hle.trans ((le_reach hconfirms).trans hlast))
  · intro hclear x hlt hle
    -- The round of the loop that goes over the TXID.
    clear hstops
    induction hjumps with
    | refl => exact absurd hlt (not_lt.mpr hle)
    | @tail rest stop hrest hjump ih =>
      rcases lt_or_ge rest x with hbeyond | hwithin
      · exact hclear rest hrest hjump.sound stop hjump.confirmed x hbeyond hle
      · exact ih hwithin

theorem cleaned_cursor (c : LocalCache) (txids : List Nat) :
    (c.cleaned txids).manifest.lastContiguousUploadedTxid = c.manifest.lastContiguousUploadedTxid := by
  induction txids generalizing c with
  | nil => rfl
  | cons txid rest ih => exact ih (c.evict txid)

/-- A call by which the uploader reports. -/
def CacheCall.reports : CacheCall → Bool
  | .confirm .. | .fail .. => true
  | _ => false

/-- **A call moves the cursor over nothing that has failed exactly if it is no report of the uploader or the entries
    and the failed uploads, with the one it reports, are clear from the cursor on.** -/
theorem cursor_below_failed_iff (ltx : LtxCrate) (now : Int) (c c' : LocalCache) (call : CacheCall)
    (h : c.call ltx now call = some c') :
    (∀ x, c.manifest.lastContiguousUploadedTxid < x → x ≤ c'.manifest.lastContiguousUploadedTxid →
      c'.manifest.failedUploadCovers x = false) ↔
    (call.reports = true → Clear c'.manifest c.manifest.lastContiguousUploadedTxid) := by
  have hstays : c'.manifest.lastContiguousUploadedTxid = c.manifest.lastContiguousUploadedTxid →
      ∀ x, c.manifest.lastContiguousUploadedTxid < x → x ≤ c'.manifest.lastContiguousUploadedTxid →
        c'.manifest.failedUploadCovers x = false := by
    intro heq x hlt hle
    exact absurd (hle.trans_eq heq) (not_le.mpr hlt)
  have hreport : ∀ m : CacheManifest, c'.manifest = m.recomputeContiguous →
      m.lastContiguousUploadedTxid = c.manifest.lastContiguousUploadedTxid →
      ((∀ x, c.manifest.lastContiguousUploadedTxid < x → x ≤ c'.manifest.lastContiguousUploadedTxid →
        c'.manifest.failedUploadCovers x = false) ↔ Clear c'.manifest c.manifest.lastContiguousUploadedTxid) := by
    intro m hm hcursor
    rw [hm, ← hcursor]
    exact recompute_clear_iff m
  cases call with
  | confirm | fail =>
    cases h
    exact (hreport _ rfl rfl).trans ⟨fun h _ => h, fun h => h rfl⟩
  | reopen stored =>
    refine ⟨fun _ h => absurd h Bool.false_ne_true, fun _ x _ _ => ?_⟩
    simp only [LocalCache.call] at h
    split at h
    · cases h
    next hnew =>
    cases h
    simp [LocalCache.update, CacheManifest.failedUploadCovers, newAt_failed hnew]
  | writeFile | addEntry =>
    cases h
    exact ⟨fun _ h => absurd h Bool.false_ne_true, fun _ => hstays rfl⟩
  | cleanup retention maxCacheSize done outcome =>
    refine ⟨fun _ h => absurd h Bool.false_ne_true, fun _ => hstays ?_⟩
    simp only [LocalCache.call, LocalCache.cleanup] at h
    split at h
    all_goals cases h
    all_goals exact cleaned_cursor _ _

/-- A cache in which TXID 3 has failed and the TXIDs 2 to 5 are confirmed; 1 and 2 are not yet. -/
def failedThree : LocalCache :=
  ⟨.empty, ⟨5, 0, [2], [3], 3, ((Lib.Store.empty.put 5 ⟨1, 0, true, some 0, false, 2, 5⟩).put 2
    ⟨1, 0, false, none, false, 1, 2⟩).put 3 ⟨1, 0, false, none, false, 3, 3⟩⟩, none⟩

/-- The TXIDs 1 and 2 are confirmed: the cursor stops before TXID 3, although a confirmed file holds it. -/
theorem cursor_below_failed_next :
    ∃ c : LocalCache, failedThree.call snapshotCrate 0 (.confirm 2 true) = some c ∧
      c.manifest.lastContiguousUploadedTxid = 2 ∧ c.manifest.failedUploadCovers 3 = true ∧
      c.manifest.Confirms 3 5 ∧ Clear c.manifest 0 := by
  refine ⟨_, rfl, ?_, ?_, ⟨5, _, rfl, rfl, ⟨by decide, by decide⟩, rfl⟩,
    (cursor_below_failed_iff snapshotCrate 0 failedThree _ (.confirm 2 true) rfl).mp (fun x hlt hle => ?_) rfl⟩
  · rfl
  · rfl
  · have hx : x = 1 ∨ x = 2 := by
      change 0 < x at hlt
      change x ≤ 2 at hle
      omega
    rcases hx with rfl | rfl <;> rfl

/-- **A snapshot up to TXID 5 is confirmed while TXID 3 has failed: the cursor goes from 0 to 5.** -/
theorem cursor_passes_failed :
    ∃ c c' : LocalCache, c.Reached snapshotCrate (fun _ _ => True) ∧
      c.call snapshotCrate 0 (.confirm 5 true) = some c' ∧ c.manifest.lastContiguousUploadedTxid = 0 ∧
      c'.manifest.lastContiguousUploadedTxid = 5 ∧ c'.manifest.failedUploadCovers 3 = true := by
  have hthree := @LocalCache.Reached.write snapshotCrate (fun _ _ => True) _ 3 [0] false .refl trivial true trivial
  have hfive := @LocalCache.Reached.write _ _ _ 5 (ltxObject 5) true hthree trivial true trivial
  refine ⟨_, _, .tail hfive (.call 0 (.fail 3 true) trivial rfl), rfl, ?_, ?_, ?_⟩
  · rfl
  · rfl
  · rfl

end Watch
end Walrust
