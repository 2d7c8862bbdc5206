import Walrust.Sync.Retry

/-!
# `Walrust.Sync.Ambiguous` — the sync after an upload that was stored and reported as failed

A conditional put can take effect and still report an error. The next sync of the external-base and the fenced
mode then reads the same frames, encodes them again and meets its own object, which counts as published only if
the bytes are the same.

* `Mode.publish_same`, `Mode.publish_other` — a publish that meets an object at its key;
* `retry_after_stored_iff` — the retry ends where the first call would have exactly if the refused call was
  restartable, the clock has not moved and the chain value it continues is the same.
-/

namespace Walrust
namespace Sync

open Wal Ltx Sqlite Hadbp Mode
open SqliteEnv (wal main)
open Oracle (quiet refusing faultAt)

variable {E A : Type} [SqliteEnv E A] {w : World E} {m : Mode} {cfg : Config}

/-! ## Publishing next to an object -/

/-- A write that takes effect and is reported as failed. -/
theorem performWrite_failsStored {op : Op} {b : A} {now : Int64} {write : Run E Unit} {v : World E}
    (h : write w = .ok () v) :
    performWrite (faultAt op .failsStored b now) op write w = .error (.err (refusedPut op)) v := by
  simp only [performWrite, faultAt, if_true, bind_apply, interfere_nil, h]
  rfl

theorem putAbsent_of_same {key : Key} {bytes : Bytes} {conflict : String}
    (h : w.bucket.get key = some bytes) : putAbsent key bytes conflict w = .ok () w := by
  simp [putAbsent, h]

theorem putAbsent_of_other {key : Key} {bytes existing : Bytes} {conflict : String}
    (h : w.bucket.get key = some existing) (hne : existing ≠ bytes) :
    putAbsent key bytes conflict w = .error (.err (.equivocation conflict)) w := by
  simp [putAbsent, h, hne]

namespace Mode

/-- The envelope of a fenced mode determines its payload. -/
def Injective : Mode → Prop
  | .owned | .externalBase => True
  | .fenced env _ => ∀ p q bytes, env.encode p = .ok bytes → env.encode q = .ok bytes → p = q

/-- Deltas carried by one object have the same bytes. -/
theorem object_inj (hm : m.Injective) {d d' : Delta} {object : Bytes} (h : m.object d = .ok object)
    (h' : m.object d' = .ok object) : d.bytes = d'.bytes := by
  cases m with
  | owned => exact Except.ok.inj (h.trans h'.symm)
  | externalBase => exact Except.ok.inj (h.trans h'.symm)
  | fenced env params => exact congrArg DeltaPayloadV1.ltxPayload (hm _ _ _ h h')

variable {b : A} {now : Int64} {d : Delta} {object : Bytes}

/-- A put that is stored and reported as failed. -/
theorem publish_failsStored (hm : m.External) (hobject : m.object d = .ok object)
    (hfree : w.bucket.get (m.key w.st d.seq) = none) :
    ∃ e, m.publish cfg (faultAt .putDelta .failsStored b now) d w =
      .error (.err e) { w with bucket := w.bucket.put (m.key w.st d.seq) object } := by
  obtain ⟨conflict, hput⟩ := publish_put (o := faultAt .putDelta .failsStored b now) cfg w hm
    hobject ⟨rfl, rfl⟩
  rw [performWrite_failsStored (putAbsent_of_none hfree)] at hput
  exact ⟨_, hput⟩

/-- A publish that meets its own object moves the cursor. -/
theorem publish_same (hm : m.External) (hobject : m.object d = .ok object)
    (hget : w.bucket.get (m.key w.st d.seq) = some object) :
    m.publish cfg (quiet b now) d w = .ok d.frameCount { w with st := advanceCursor d w.st } := by
  obtain ⟨conflict, hput⟩ := publish_put (o := quiet b now) cfg w hm hobject ⟨rfl, rfl⟩
  rwa [performWrite_quiet, putAbsent_of_same hget] at hput

/-- A publish that meets any other object fails. -/
theorem publish_other (hm : m.External) (hobject : m.object d ≠ .ok object)
    (hget : w.bucket.get (m.key w.st d.seq) = some object) :
    ∃ e, m.publish cfg (quiet b now) d w = .error e w := by
  cases hencode : m.object d with
  | error msg =>
    obtain ⟨e, he⟩ := publish_unencodable cfg _ w hencode
    exact ⟨_, he⟩
  | ok own =>
    have hne : object ≠ own := fun h => hobject (h ▸ hencode)
    obtain ⟨conflict, hput⟩ := publish_put (o := quiet b now) cfg w hm hencode ⟨rfl, rfl⟩
    rw [performWrite_quiet, putAbsent_of_other hget hne] at hput
    exact ⟨_, hput⟩

end Mode

/-! ## The retry -/

section Retry

variable {o o' : Oracle A} {header : WalHeader} {r : PageMapRead} {bytes : Bytes} {post : UInt64} {db : E}

/-- What is ready depends on the clock, the database and the cursor only. -/
theorem Ready.congr {v : World E} (h : Ready cfg o w header r bytes post) (hnow : o'.now = o.now)
    (hdb : v.db = w.db) (hst : v.st = w.st) : Ready cfg o' v header r bytes post := by
  obtain ⟨db, bucket, json, intent, st⟩ := v
  obtain ⟨db', bucket', json', intent', st'⟩ := w
  obtain rfl : db = db' := hdb
  obtain rfl : st = st' := hst
  refine ⟨h.read, h.stay, h.next, h.batch, ?_⟩
  rw [hnow]
  exact h.encodes

/-- With the same WAL there is a batch to publish at any time and over any database file. -/
theorem Ready.reencode (h : Ready cfg o w header r bytes post)
    (hwal : wal db = wal w.db) : ∃ bytes' post', Ready cfg o' { w with db := db } header r bytes' post' := by
  have hinput := (encodeWalChanges_ok h.encodes).1
  refine ⟨_, _, ?_, ?_, ?_, h.batch, hinput.encode⟩
  · rw [hwal]
    exact h.read
  · rw [hwal]
    exact h.stay
  · have hnext := h.next
    unfold nextRead noted at hnext ⊢
    rw [hwal]
    exact hnext

theorem readState_readState {v : World E} (hstay : w.rolled header = false)
    (hv : v.st = readState w header r)
    (hstay' : v.rolled header = false) :
    readState v header r = readState w header r := by
  rw [readState_stay hstay', hv, readState_stay hstay]
  cases r.chain <;> rfl

/-- Two encodings of one batch over one chain value have one checksum. -/
theorem Ready.post_eq {bytes' : Bytes} {post' : UInt64} (h : Ready cfg o w header r bytes post)
    (h' : Ready cfg o' { w with db := db } header r bytes' post')
    (hpre : preOf cfg { w with db := db } = preOf cfg w) : post' = post := by
  obtain ⟨-, -, hpost⟩ := encodeWalChanges_ok h.encodes
  obtain ⟨-, -, hpost'⟩ := encodeWalChanges_ok h'.encodes
  rw [hpost, hpost', hpre]
  rfl

/-- The bytes of two encodings of one batch are the same exactly if clock and chain value are. -/
theorem Ready.bytes_eq_iff {bytes' : Bytes} {post' : UInt64} (h : Ready cfg o w header r bytes post)
    (h' : Ready cfg o' { w with db := db } header r bytes' post') :
    bytes' = bytes ↔ o'.now = o.now ∧ preOf cfg { w with db := db } = preOf cfg w := by
  obtain ⟨-, hbytes, -⟩ := encodeWalChanges_ok h.encodes
  obtain ⟨-, hbytes', -⟩ := encodeWalChanges_ok h'.encodes
  rw [hbytes, hbytes']
  constructor
  · exact PhysicalChangeset.wire_header rfl rfl
  · rintro ⟨hnow, hpre⟩
    rw [hnow, hpre]

variable {b : A} {now : Int64} {object : Bytes} {v : World E}

/-- A call whose put is stored and reported as failed has moved only the WAL fields its read moved. -/
theorem Ready.call_failsStored (hm : m.External)
    (h : Ready cfg (faultAt .putDelta .failsStored b now) w header r bytes post)
    (hobject : m.object (deltaOf cfg w header r bytes post) = .ok object)
    (hfree : w.bucket.get (m.key w.st (w.st.currentSeq + 1)) = none) :
    ∃ e v, m.call cfg (faultAt .putDelta .failsStored b now) w = .error (.err e) v ∧ v.db = w.db ∧
      v.bucket = w.bucket.put (m.key w.st (w.st.currentSeq + 1)) object ∧ v.st = readState w header r := by
  rw [m.call_ready h (quietRead_faultAt _ b now (by decide))]
  rw [← key_readState (w := w) (r := r)] at hfree ⊢
  obtain ⟨e, hstored⟩ := publish_failsStored (w := (w.read header r))
    (d := deltaOf cfg w header r bytes post) (b := b) hm hobject hfree
  exact ⟨e, _, hstored, rfl, rfl, rfl⟩

/-- A retry behind the cursor of a call that read a batch, next to the object `object` that carries it. -/
structure Retries (m : Mode) (w : World E) (header : WalHeader) (r : PageMapRead) (object : Bytes)
    (v : World E) : Prop where
  state : v.st = readState w header r
  wal : wal v.db = wal w.db
  stored : v.bucket.get (m.key w.st (w.st.currentSeq + 1)) = some object

/-- If the chain did not move, the retry reads the same batch and meets the object. -/
theorem Retries.ready (h : Retries m w header r object v) (hready : Ready cfg o w header r bytes post)
    (hrestart : Restartable w.st r) (o' : Oracle A) :
    SameCursor header.salt w.st v.st ∧ readState v header r = readState w header r ∧
      v.bucket.get (m.key (readState v header r) (v.st.currentSeq + 1)) = some object ∧
      ∃ bytes' post', Ready cfg o' { w with db := v.db } header r bytes' post' ∧
        Ready cfg o' v header r bytes' post' := by
  have hcursor : SameCursor header.salt w.st v.st := by
    rw [h.state]
    exact sameCursor_readState hready.stay hrestart
  obtain ⟨bytes', post', hready'⟩ := hready.reencode h.wal
  have hready'' : Ready cfg o' v header r bytes' post' := hready'.transfer hcursor
  have hst := readState_readState hready.stay h.state hready''.stay
  refine ⟨hcursor, hst, ?_, bytes', post', hready', hready''⟩
  rw [hst, key_readState, hcursor.seq]
  exact h.stored

/-- At the same time and over the same chain value the retry is accepted. -/
theorem Retries.accepted (h : Retries m w header r object v) (hm : m.External)
    (hready : Ready cfg o w header r bytes post)
    (hobject : m.object (deltaOf cfg w header r bytes post) = .ok object) (hrestart : Restartable w.st r)
    (hpre : preOf cfg { w with db := v.db } = preOf cfg w) :
    m.call cfg (quiet b o.now) v = .ok r.frameCount
      { v with st := advanceCursor (deltaOf cfg w header r bytes post) (readState w header r) } := by
  obtain ⟨hcursor, hst, hget, bytes', post', hready', hready''⟩ := h.ready hready hrestart (quiet b o.now)
  obtain rfl : bytes' = bytes := (hready.bytes_eq_iff hready').mpr ⟨rfl, hpre⟩
  obtain rfl : post' = post := hready.post_eq hready' hpre
  have hdelta : deltaOf cfg v header r bytes' post' = deltaOf cfg w header r bytes' post' := by
    have hpre' : preOf cfg v = preOf cfg w := by
      rw [← hpre]
      unfold preOf
      rw [hcursor.checksum]
    simp only [deltaOf, hcursor.seq, hpre', hst]
  rw [hcursor.seq] at hget
  rw [m.call_ready hready'' (quietRead_quiet b o.now), hdelta, ← hst]
  exact publish_same hm hobject hget

theorem Retries.refused (h : Retries m w header r object v) (hm : m.External) (hinj : m.Injective)
    (hready : Ready cfg o w header r bytes post)
    (hobject : m.object (deltaOf cfg w header r bytes post) = .ok object) (hrestart : Restartable w.st r)
    (hne : ¬ (now = o.now ∧ preOf cfg { w with db := v.db } = preOf cfg w)) :
    ∃ e v', m.call cfg (quiet b now) v = .error e v' := by
  obtain ⟨-, -, hget, bytes', post', hready', hready''⟩ := h.ready hready hrestart (quiet b now)
  have hother : m.object (deltaOf cfg v header r bytes' post') ≠ .ok object := by
    intro hobject'
    exact hne ((hready.bytes_eq_iff hready').mp (object_inj hinj hobject' hobject))
  obtain ⟨e, hpub⟩ := publish_other (w := (v.read header r)) hm hother hget
  rw [m.call_ready hready'' (quietRead_quiet b now)]
  exact ⟨e, _, hpub⟩

/-- If the chain moved, the retry finds nothing behind its cursor. -/
theorem Retries.stranded (h : Retries m w header r object v) (hready : Ready cfg o w header r bytes post)
    (hstranded : ¬ Restartable w.st r) :
    ∃ v', m.call cfg (quiet b now) v = .ok 0 v' ∧ v'.st.currentSeq = w.st.currentSeq := by
  obtain ⟨bytes', post', hready'⟩ := hready.reencode h.wal
  have hrefused : Ready cfg (refusing b o.now) { w with bucket := v.bucket, stateJson := v.stateJson }
      header r bytes post := hready.congr rfl rfl rfl
  have hretry : Ready cfg (quiet b now)
      { w with bucket := v.bucket, stateJson := v.stateJson, db := v.db } header r bytes' post' :=
    hready'.congr rfl rfl rfl
  obtain ⟨v', hidle, -, hseq⟩ := call_after_stranded (m := m) v.intent hrefused hstranded hretry rfl
  obtain ⟨db, bucket, json, intent, st⟩ := v
  obtain rfl := h.state
  exact ⟨v', hidle, hseq⟩

/-- **The sync after a put that was stored and reported as failed**, outside owned mode. The first call fails and
    leaves the object in the bucket. The next call, on a healthy storage and over an unchanged WAL, ends with the
    cursor and the bucket of a first call that succeeded exactly if the refused call was restartable, the clock
    shows the same millisecond, and the chain value the batch continues is the same. -/
theorem retry_after_stored_iff (hm : m.External) (hinj : m.Injective)
    (hready : Ready cfg (Oracle.faultAt .putDelta .failsStored b now) w header r bytes post)
    (hobject : m.object (deltaOf cfg w header r bytes post) = .ok object)
    (hfree : w.bucket.get (m.key w.st (w.st.currentSeq + 1)) = none) :
    ∃ e v v₁, m.call cfg (Oracle.faultAt .putDelta .failsStored b now) w = .error (.err e) v ∧
      v.db = w.db ∧ v.bucket.get (m.key w.st (w.st.currentSeq + 1)) = some object ∧
      m.call cfg (Oracle.quiet b now) w = .ok r.frameCount v₁ ∧
      ∀ (db : E) (b' : A) (now' : Int64), SqliteEnv.wal db = SqliteEnv.wal w.db →
        ((∃ n v', m.call cfg (Oracle.quiet b' now') { v with db := db } = .ok n v' ∧ v'.bucket = v₁.bucket ∧
            v'.st = v₁.st) ↔
          Restartable w.st r ∧ now' = now ∧ preOf cfg { w with db := db } = preOf cfg w) := by
  obtain ⟨e, v, hfirst, hdb, hbucket, hst⟩ := hready.call_failsStored hm hobject hfree
  have hquiet : Ready cfg (quiet b now) w header r bytes post := hready.congr rfl rfl rfl
  obtain ⟨v₁, hcalled, hbucket₁, hst₁⟩ := hquiet.call_quiet hobject hfree
  have hget : v.bucket.get (m.key w.st (w.st.currentSeq + 1)) = some object := by
    rw [hbucket, Lib.Store.get_put_self]
  refine ⟨e, v, v₁, hfirst, hdb, hget, hcalled, ?_⟩
  intro db b' now' hwal
  have hretries : Retries m w header r object { v with db := db } := ⟨hst, hwal, hget⟩
  by_cases hrestart : Restartable w.st r
  · constructor
    · rintro ⟨n, v', hcall, -, -⟩
      refine ⟨hrestart, ?_⟩
      by_contra hne
      obtain ⟨e', v'', hrefused⟩ := hretries.refused hm hinj hready hobject hrestart hne
      cases hrefused.symm.trans hcall
    · rintro ⟨-, hnow, hpre⟩
      have haccepted := hretries.accepted (b := b') hm hready hobject hrestart hpre
      rw [hnow]
      exact ⟨_, _, haccepted, hbucket.trans hbucket₁.symm, hst₁.symm⟩
  · refine iff_of_false ?_ fun h => hrestart h.1
    rintro ⟨n, v', hcall, -, hst'⟩
    obtain ⟨v'', hidle, hseq⟩ := hretries.stranded hready hrestart
    have hsame := hidle.symm.trans hcall
    injection hsame with _ hv
    rw [hv, hst', hst₁] at hseq
    exact absurd hseq (Nat.succ_ne_self _)

end Retry

/-! ### On the growing database, over an external base -/

/-- A cursor behind an external base at seq 1, with one commit to publish at seq 2. -/
theorem ready_externalBase : ∃ (w : World (Db 512)) (r : PageMapRead),
    w.st.externalBase.isSome ∧ Restartable w.st r ∧
      w.bucket.get (externalBase.key w.st (w.st.currentSeq + 1)) = none ∧
      ∀ o : Oracle (Action 512), ∃ header bytes post, Ready growConfig o w header r bytes post := by
  obtain ⟨w₁, -, hwal₁, hrestart₁, himage₁, hseq, hlin, hsalt, hoffset, -, hfree⟩ :=
    snapshot_onePage growConfig
  obtain ⟨db, -, hwal, -, -⟩ := act_writeTwo hwal₁ hrestart₁ (by omega) 7
  obtain ⟨r, bytes, post, hready, -⟩ := ready_fromStart growConfig
    calmCall
    (w := { w₁ with db := db, st := { w₁.st with externalBase := some ⟨1, w₁.st.dbChecksum.getD 0⟩ } })
    hwal hsalt hoffset rfl (by simp [writeTwo])
  refine ⟨{ w₁ with db := db, st := { w₁.st with externalBase := some ⟨1, w₁.st.dbChecksum.getD 0⟩ } }, r, rfl,
    .inl hoffset, ?_, fun o => ?_⟩
  · show Lib.Store.get w₁.bucket (.changeset w₁.st.lineageId .live (w₁.st.currentSeq + 1)) = none
    rw [hlin, hseq]
    exact hfree 2 (by decide) .live
  · obtain ⟨bytes', post', hready'⟩ := hready.reencode rfl
    exact ⟨_, bytes', post', hready'⟩

/-- A retry within the same millisecond is accepted. -/
theorem retry_after_stored_growing :
    ∃ (w v v₁ v' : World (Db 512)) (e : SyncError) (n k : Nat), w.st.externalBase.isSome ∧
      Mode.externalBase.call growConfig
        (Oracle.faultAt .putDelta .failsStored (.commit (touchOne (5, 6))) 0) w = .error (.err e) v ∧
      Mode.externalBase.call growConfig (Oracle.quiet (.commit (touchOne (5, 6))) 0) w = .ok n v₁ ∧
      Mode.externalBase.call growConfig (Oracle.quiet (.commit (touchOne (5, 6))) 0) v = .ok k v' ∧
      v'.bucket = v₁.bucket ∧ v'.st = v₁.st := by
  obtain ⟨w, r, hbase, hrestart, hfree, hready⟩ := ready_externalBase
  obtain ⟨header, bytes, post, h⟩ := hready (faultAt .putDelta .failsStored (.commit (touchOne (5, 6))) 0)
  obtain ⟨e, v, v₁, hfirst, hdb, -, hcall, hiff⟩ := retry_after_stored_iff (m := .externalBase) trivial trivial h
    rfl hfree
  obtain ⟨n, v', hretry, hbucket, hst⟩ := (hiff w.db (.commit (touchOne (5, 6))) 0 rfl).mpr ⟨hrestart, rfl, rfl⟩
  rw [← hdb] at hretry
  exact ⟨w, v, v₁, v', e, _, n, hbase, hfirst, hcall, hretry, hbucket, hst⟩

/-- A retry a millisecond later is refused: the object of the first call, which differs from the second encoding
    only in its timestamp, is taken for another writer's. -/
theorem retry_after_stored_equivocates :
    ∃ (w v v' : World (Db 512)) (e : SyncError) (e' : Stop) (object : Bytes), w.st.externalBase.isSome ∧
      Mode.externalBase.call growConfig
        (Oracle.faultAt .putDelta .failsStored (.commit (touchOne (5, 6))) 0) w = .error (.err e) v ∧
      w.bucket.get (stateKey w.st .live (w.st.currentSeq + 1)) = none ∧
      v.bucket.get (stateKey w.st .live (w.st.currentSeq + 1)) = some object ∧
      Mode.externalBase.call growConfig (Oracle.quiet (.commit (touchOne (5, 6))) 1) v = .error e' v' := by
  obtain ⟨w, r, hbase, hrestart, hfree, hready⟩ := ready_externalBase
  obtain ⟨header, bytes, post, h⟩ := hready (faultAt .putDelta .failsStored (.commit (touchOne (5, 6))) 0)
  obtain ⟨e, v, hfirst, hdb, hbucket, hst⟩ := h.call_failsStored (m := .externalBase) trivial rfl hfree
  have hget : v.bucket.get (externalBase.key w.st (w.st.currentSeq + 1)) = some bytes := by
    rw [hbucket, Lib.Store.get_put_self]
    rfl
  have hretries : Retries .externalBase w header r bytes v := ⟨hst, by rw [hdb], hget⟩
  obtain ⟨e', v', hrefused⟩ := @Retries.refused _ _ _ _ _ _ _ _ _ _ _ (.commit (touchOne (5, 6))) 1 _ _ hretries
    trivial trivial h rfl hrestart (fun hsame => absurd hsame.1 (by decide))
  exact ⟨w, v, v', e, e', bytes, hbase, hfirst, hfree, hget, hrefused⟩

end Sync
end Walrust
