import Walrust.Lib.Hoare
import Walrust.Sync.Retry

/-!
# `Walrust.Sync.Recovery` — the crash window between the put and `state.json`

An owned sync stores its changeset first and `state.json` after it. A writer that dies in between reopens
behind its own object: the next call finds the key taken. `existing_changeset_is_our_publish` lets it adopt
the object if the local publish intent names it. There is one intent, and a call overwrites it before its own
put is known to have succeeded.

* `addWithoutSnapshot` — the reopen: the cursor of `state.json` over a fresh `SyncState`;
* `planSync`, `planSnapshot` — the calls up to their first write, and `syncWal_plan`, `takeSnapshot_plan`;
* `Face` — the part of a world the window is about, and `syncWal_triple`, what a call can make of it, under
  every placement of faults and interference;
* `Recovers` — a call that starts behind its own object, or with `state.json` behind the writer, is not cut
  once it has rewritten the intent;
* `own_publish_accepted` — under that condition no call ever reports a conflict with the writer's own object,
  and a healthy call with a batch passes it.
-/

namespace Walrust
namespace Sync

open Wal Ltx Sqlite Hadbp Lib List
open SqliteEnv (wal main)
open Oracle (quiet refusing faultAt)

variable {post : UInt64} {cs : PhysicalChangeset} {r : PageMapRead} {intent : PublishIntent} {E A : Type}
  [SqliteEnv E A] {cfg : Config} {w : World E} {b blocker : A} {now : Int64}

/-! ## Reopening -/

/-- The fields of `state.json` over a fresh state. -/
def SyncState.load (s : SyncState) (saved : SavedState) : SyncState :=
  { s with
    currentSeq := saved.currentSeq
    lineageId := saved.lineageId
    walOffset := saved.walOffset
    walGeneration := saved.walGeneration
    currentTxid := saved.currentTxid
    dbChecksum := saved.dbChecksum.or s.dbChecksum
    lastSnapshot := saved.lastSnapshot.or s.lastSnapshot
    walSalt := saved.walSalt
    walChecksumChain := saved.walChecksumChain }

/-- The cursor `add_without_snapshot` starts from: the file's hash and change counter, then `state.json`. -/
def reopenedState (cfg : Config) (name : String) (main : Bytes) (stateJson : Option SavedState) : SyncState :=
  let fresh := { SyncState.new name with
    dbChecksum := some (computeChecksumFromFile cfg.ph main)
    currentTxid := changeCounterFromFile main }
  match stateJson with
  | some saved => fresh.load saved
  | none => fresh

/-- `add_without_snapshot` in owned mode, after what others did while the process was down. A reopen that
    fails leaves at most the blocker's commit, which is one more commit of another connection. -/
def addWithoutSnapshot (cfg : Config) (down : List A) (blocker : A) : Run E Unit := do
  interfere down
  let w ← get
  let s := reopenedState cfg w.st.name (main w.db) w.stateJson
  interfere [blocker]
  modifyState fun _ => { s with checkpointBlocker := true }

/-! ## The calls, cut at the storage -/

section Plans

variable (cfg : Config) (o : Oracle A)

/-- What a sync has to do once it has read the WAL. -/
inductive Plan where
  | nothing
  | reanchor
  | publish (d : Delta)
  deriving DecidableEq, Repr

/-- The front of an owned sync: everything before it touches the storage. -/
def planSync : Run E Plan := do
  match ← readWalHeader o with
  | none => return .nothing
  | some header =>
    let batch ← readNextWalBatch o header
    if batch.rolloverDetected then return .reanchor
    else if batch.pageMap.isEmpty then return .nothing
    else return .publish (← encodeBatch cfg o "changeset" header batch)

/-- The rest of a sync, with the way it publishes. -/
def followPlan (publish : Delta → Run E Nat) : Plan → Run E Nat
  | .nothing => return 0
  | .reanchor => do
    takeSnapshot cfg o
    saveState o
    return 1
  | .publish d => publish d

theorem planSync_site : (planSync cfg o : Run E Plan) = site cfg o "changeset" (return .nothing)
    (fun _ => return .reanchor) (fun d => return .publish d) := rfl

/-- The front with a rest, as one program. -/
theorem planSync_bind {α : Type} (k : Plan → Run E α) : planSync cfg o >>= k =
    site cfg o "changeset" (k .nothing) (fun _ => k .reanchor) fun d => k (.publish d) := by
  rw [planSync_site, site_bind]
  rfl

theorem syncWal_plan : (syncWal cfg o : Run E Nat) = planSync cfg o >>= followPlan cfg o (publishOwned cfg o) := by
  rw [planSync_bind]
  rfl

/-- How `sync_wal_with_retry` publishes. -/
def publishRetry (d : Delta) : Run E Nat := do
  let s ← state
  putChangesetIfAbsent cfg o .putDelta (stateKey s .live d.seq) d.bytes s.name d.seq "walrust-owned"
  modifyState (advanceCursor d)
  saveState o
  return d.frameCount

theorem syncWalWithRetry_plan :
    (syncWalWithRetry cfg o : Run E Nat) = planSync cfg o >>= followPlan cfg o (publishRetry cfg o) := by
  rw [planSync_bind]
  rfl

/-- A snapshot, encoded and ready to be put. -/
structure PlannedSnapshot where
  key : Key
  name : String
  seq : Nat
  txid : Nat
  bytes : Bytes
  checksum : UInt64

/-- `take_snapshot` up to its put. -/
def planSnapshot : Run E PlannedSnapshot := do
  releaseCheckpointBlocker o
  checkpointWal o
  reacquireCheckpointBlocker o
  perform o .readPageSize
  let main := main (← get).db
  match getPageSize main with
  | .error e => fail e
  | .ok pageSize =>
    perform o .countCommits
    let walCommits := countWalCommits (SqliteEnv.wal (← get).db) pageSize
    let s ← state
    let newTxid := snapshotTxid s (changeCounterFromFile main) walCommits
    let newSeq := s.currentSeq + 1
    perform o .encodeSnapshot
    match encodeSnapshotWithChecksum cfg.ph o.now (SqliteEnv.main (← get).db) pageSize
        (UInt64.ofNat newSeq) (s.dbChecksum.getD 0) with
    | .error e => fail e
    | .ok snapshot =>
      return ⟨stateKey s .snapshot newSeq, s.name, newSeq, newTxid, snapshot.bytes, snapshot.checksum⟩

/-- `take_snapshot` behind its put. -/
def settleSnapshot (p : PlannedSnapshot) : Run E Unit := do
  modifyState fun s => { s with
    currentSeq := p.seq
    currentTxid := p.txid
    lastSnapshot := some o.now
    dbChecksum := some p.checksum }
  resetWalCursorAfterSnapshot o

theorem takeSnapshot_plan : (takeSnapshot cfg o : Run E Unit) = (planSnapshot cfg o >>= fun p =>
    putChangesetIfAbsent cfg o .putSnapshot p.key p.bytes p.name p.seq "walrust-owned snapshot" >>= fun _ =>
      settleSnapshot o p) := by
  unfold takeSnapshot planSnapshot
  simp only [bind_assoc]
  congr 1; funext _
  congr 1; funext _
  congr 1; funext _
  congr 1; funext _
  congr 1; funext w
  cases getPageSize (main w.db) with
  | error e => rfl
  | ok pageSize =>
    simp only [bind_assoc]
    congr 1; funext _
    congr 1; funext _
    congr 1; funext s
    congr 1; funext _
    congr 1; funext v
    cases encodeSnapshotWithChecksum cfg.ph o.now (main v.db) pageSize
      (UInt64.ofNat (s.currentSeq + 1)) (s.dbChecksum.getD 0) with
    | error e => rfl
    | ok snapshot => rfl

end Plans

/-! ## The face of a world -/

/-- The point of the stream a cursor stands at. -/
structure Anchor where
  lineageId : Option String
  seq : Nat
  sum : Option UInt64
  deriving DecidableEq, Repr

def SyncState.anchor (s : SyncState) : Anchor := ⟨s.lineageId, s.currentSeq, s.dbChecksum⟩

def SavedState.anchor (s : SavedState) : Anchor := ⟨s.lineageId, s.currentSeq, s.dbChecksum⟩

@[simp] theorem anchor_saved (s : SyncState) : s.saved.anchor = s.anchor := rfl

/-- What the crash window is about: where the writer stands, where `state.json` stands, the publish intent,
    and the incrementals of each lineage. -/
structure Face where
  name : String
  mem : Anchor
  saved : Option Anchor
  intent : Option PublishIntent
  live : Option String → Nat → Option Bytes

def World.face {E : Type} (w : World E) : Face where
  name := w.st.name
  mem := w.st.anchor
  saved := w.stateJson.map SavedState.anchor
  intent := w.intent
  live := fun lineage seq => w.bucket.get (.changeset lineage .live seq)

namespace Face

variable (f : Face)

/-- The object at the writer's next seq. -/
def next : Option Bytes := f.live f.mem.lineageId (f.mem.seq + 1)

/-- The intent of a publish is recorded. -/
def record (d : Delta) : Face :=
  { f with intent := some ⟨f.mem.lineageId, d.seq, d.preChecksum, d.postChecksum⟩ }

/-- The object is stored. -/
def store (d : Delta) : Face :=
  { f with live := fun lineage seq =>
      if lineage = f.mem.lineageId ∧ seq = d.seq then some d.bytes else f.live lineage seq }

/-- The writer moves to a seq. -/
def move (seq : Nat) (sum : UInt64) : Face := { f with mem := ⟨f.mem.lineageId, seq, some sum⟩ }

/-- `state.json` is brought up to the writer. -/
def save : Face := { f with saved := some f.mem }

end Face

/-! ## What the operations do to it -/

/-- The message of a refused put. -/
def conflictMessage (cfg : Config) (key : Key) (name : String) (seq : Nat) (mode : String) : String :=
  s!"{name}: {mode} duplicate changeset seq {seq}; " ++ s!"refusing overwrite at {key.path cfg.pre name}"

/-- The conflict an owned sync reports against the incremental stored at `seq`. -/
def liveConflict (cfg : Config) (name : String) (lineage : Option String) (seq : Nat) : Stop :=
  .err (.equivocation (conflictMessage cfg (.changeset lineage .live seq) name seq "walrust-owned"))

/-- A refused snapshot is not mistaken for a refused incremental: the messages part behind the mode. -/
theorem conflictMessage_snapshot_ne (cfg : Config) (key key' : Key) (name : String) (seq seq' : Nat) :
    conflictMessage cfg key name seq "walrust-owned snapshot" ≠
      conflictMessage cfg key' name seq' "walrust-owned" := by
  intro h
  have hlist := congrArg String.toList h
  simp only [conflictMessage, String.toList_append, append_assoc, toString] at hlist
  have hrest := append_cancel_left hlist
  simp at hrest

/-- A stop that reports no conflict with an incremental. -/
def Stop.Aside (cfg : Config) (name : String) (e : Stop) : Prop :=
  ∀ lineage seq, e ≠ liveConflict cfg name lineage seq

/-- A stop that reports no conflict at all. -/
def Stop.Plain (e : Stop) : Prop := ∀ msg, e ≠ .err (.equivocation msg)

theorem Stop.Plain.aside {cfg : Config} {name : String} {e : Stop} (h : e.Plain) : e.Aside cfg name :=
  fun _ _ => h _

theorem Stop.plain_other (msg : String) : (Stop.err (.other msg)).Plain := nofun
theorem Stop.plain_crash : Stop.crash.Plain := nofun
theorem Stop.plain_stuck : Stop.stuck.Plain := nofun

section Effects

variable {α β : Type} (cfg : Config) (o : Oracle A) (f : Face)

/-- What a world holds besides the database and the WAL fields of the cursor. -/
structure Held where
  name : String
  mem : Anchor
  stateJson : Option SavedState
  intent : Option PublishIntent
  bucket : Bucket

def World.held (w : World E) : Held := ⟨w.st.name, w.st.anchor, w.stateJson, w.intent, w.bucket⟩

def Held.face (h : Held) : Face :=
  ⟨h.name, h.mem, h.stateJson.map SavedState.anchor, h.intent,
    fun lineage seq => h.bucket.get (.changeset lineage .live seq)⟩

/-- A program that leaves all of that as it is, and reports no conflict. -/
def Keeps (x : Run E α) (φ : α → Prop) : Prop := ∀ h : Held, h.face = f → Reads World.held h x φ Stop.Plain

variable {cfg o f} {R : Stop → World E → Prop} {g : SyncState → SyncState} {Q : β → World E → Prop}

namespace Keeps

variable {x : Run E α} {φ : α → Prop} {ψ : β → Prop}

theorem pure {a : α} (h : φ a) : Keeps f (Pure.pure a : Run E α) φ := fun _ _ => .pure h

theorem bind {g : α → Run E β} (hx : Keeps f x φ) (hg : ∀ a, φ a → Keeps f (g a) ψ) : Keeps f (x >>= g) ψ :=
  fun h hf => (hx h hf).bind fun a ha => hg a ha h hf

theorem reads (hx : Keeps f x φ) : Reads World.face f x φ Stop.Plain := .through (g := Held.face) hx

theorem andThen {g : α → Run E β} (hx : Keeps f x φ) (hR : ∀ e w, w.face = f → e.Aside cfg f.name → R e w)
    (hg : ∀ a, φ a → Triple (fun w => w.face = f) (g a) Q R) : Triple (fun w => w.face = f) (x >>= g) Q R :=
  hx.reads.andThen (fun e w hw he => hR e w hw he.aside) hg

end Keeps

theorem keeps_state : Keeps f (state : Run E SyncState) fun s => s.name = f.name ∧ s.anchor = f.mem := by
  rintro _ rfl w rfl
  exact ⟨rfl, rfl, rfl⟩

theorem keeps_get : Keeps f (get : Run E (World E)) fun w => w.face = f := by
  rintro _ rfl w rfl
  exact ⟨rfl, rfl⟩

theorem keeps_fail {msg : String} {φ : α → Prop} : Keeps f (fail msg : Run E α) φ :=
  fun _ _ => .throw (Stop.plain_other msg)

/-- A change of the cursor that keeps the writer's place in the stream. -/
theorem keeps_modifyState (hg : ∀ s, (g s).name = s.name ∧ (g s).anchor = s.anchor) :
    Keeps f (modifyState g : Run E Unit) fun _ => True := by
  rintro _ - w rfl
  refine ⟨?_, trivial⟩
  simp only [World.held, (hg w.st).1, (hg w.st).2]

/-- A change of the cursor that moves the writer. -/
theorem move_triple {seq : Nat} {sum : UInt64}
    (hg : ∀ s, (g s).name = s.name ∧ (g s).anchor = ⟨s.lineageId, seq, some sum⟩) :
    Triple (fun w : World E => w.face = f) (modifyState g) (fun _ w => w.face = f.move seq sum) R := by
  rintro w rfl
  show ({ w with st := g w.st } : World E).face = w.face.move seq sum
  simp only [World.face, (hg w.st).1, (hg w.st).2]
  rfl

theorem keeps_interfere {as : List A} : Keeps f (interfere as : Run E Unit) fun _ => True := by
  induction as with
  | nil => exact .pure trivial
  | cons a as ih =>
    rintro _ hf w rfl
    simp only [interfere, bind_apply, get_apply]
    cases hact : SqliteEnv.act w.db a with
    | none => exact ⟨rfl, Stop.plain_stuck⟩
    | some db => exact ih _ hf { w with db := db } rfl

theorem keeps_perform {op : Op} : Keeps f (perform o op : Run E Unit) fun _ => True := by
  refine keeps_interfere.bind fun _ _ => ?_
  cases o.fault op with
  | none => exact .pure trivial
  | fails => exact keeps_fail
  | failsStored => exact keeps_fail
  | crash => exact fun _ _ => .throw Stop.plain_crash

/-- A write takes effect or not, whatever it reports. -/
theorem performWrite_triple (op : Op) {write : Run E Unit} {Q : World E → Prop}
    (hwrite : Triple (fun w => w.face = f) write (fun _ => Q) R) :
    Triple (fun w => w.face = f) (performWrite o op write) (fun _ => Q)
      fun e w => (e.Plain ∧ (w.face = f ∨ Q w)) ∨ R e w := by
  refine keeps_interfere.reads.andThen (fun e w hw he => .inl ⟨he, .inl hw⟩) fun _ _ => ?_
  cases o.fault op with
  | none => exact hwrite.post (fun _ _ h => h) fun _ _ h => .inr h
  | fails =>
    intro w hw
    exact .inl ⟨Stop.plain_other _, .inl hw⟩
  | failsStored =>
    refine .bind (M := fun _ => Q)
      (hwrite.post (fun _ _ h => h) fun _ _ h => .inr h) fun _ w hw => ?_
    exact .inl ⟨Stop.plain_other _, .inr hw⟩
  | crash =>
    intro w hw
    exact .inl ⟨Stop.plain_crash, .inl hw⟩

/-! ### Reading and encoding -/

theorem keeps_readWalHeader : Keeps f (readWalHeader o : Run E (Option WalHeader)) fun _ => True := by
  refine keeps_perform.bind fun _ _ => keeps_get.bind fun w _ => ?_
  split
  · exact keeps_fail
  · exact keeps_perform.bind fun _ _ => .pure trivial
  · exact .pure trivial

/-- A page map has every page once. -/
theorem nodup_of_read {file after : Bytes} {pageSize : UInt32} {offset : Nat} {seed : Option Chain}
    (h : readFramesAsPageMapChecked file after pageSize offset seed = .ok r) :
    (r.pageMap.map Prod.fst).Nodup := by
  have hempty : ∀ start, ((emptyRead start seed).pageMap.map Prod.fst).Nodup := fun _ => nodup_nil
  unfold readFramesAsPageMapChecked at h
  dsimp only at h
  split at h
  · cases h
  split at h
  · cases h
    exact hempty _
  split at h
  · cases h
    exact hempty _
  split at h
  · cases h
    exact hempty _
  · split at h
    · cases h
    · split at h
      · cases h
      · cases h
        exact nodup_pageMapOf _

theorem keeps_readNextWalBatch (header : WalHeader) :
    Keeps f (readNextWalBatch o header : Run E WalBatch) fun b => (b.pageMap.map Prod.fst).Nodup := by
  refine keeps_perform.bind fun _ _ => keeps_state.bind fun s _ =>
    keeps_get.bind fun w _ => ?_
  refine (keeps_modifyState ?_).bind fun _ _ => keeps_perform.bind fun _ _ =>
    keeps_state.bind fun s' _ => keeps_get.bind fun w' _ =>
    keeps_interfere.bind fun _ _ => keeps_get.bind fun w'' _ => ?_
  · intro s
    unfold noteGeneration
    split <;> exact ⟨rfl, rfl⟩
  · split
    · exact keeps_fail
    · rename_i r hr
      refine (keeps_modifyState ?_).bind fun _ _ => .pure (nodup_of_read hr)
      intro s
      cases r.chain <;> exact ⟨rfl, rfl⟩

/-- The object is an incremental of this place in the stream. -/
def Authored (cfg : Config) (seq : Nat) (pre post : UInt64) (bytes : Bytes) : Prop :=
  ∃ cs, decodeSqliteChangeset cfg.ph bytes = .ok cs ∧ cs.header.seq = UInt64.ofNat seq ∧
    cs.header.prevChecksum = pre ∧ cs.checksum = post

/-- What the encoder writes, the decoder accepts. -/
theorem authored_of_encode {cfg : Config} {createdMs : Int64} {pages : PageMap} {pageSize : UInt32} {seq : Nat}
    {pre : UInt64} {endPageCount : Nat} {bytes : Bytes} (hnodup : (pages.map Prod.fst).Nodup)
    (h : encodeWalChangesWithEndPageCount cfg.ph createdMs pages pageSize (UInt64.ofNat seq) pre
      endPageCount = .ok (bytes, post)) : Authored cfg seq pre post bytes := by
  obtain ⟨hi, rfl, rfl⟩ := encodeWalChanges_ok h
  exact ⟨_, decodeSqliteChangeset_wire (deltaChangeset_wellFormed hi hnodup) (deltaChangeset_valid hi hnodup),
    rfl, rfl, rfl⟩

/-- The batch about to be published at the writer's next seq. -/
structure Fresh (cfg : Config) (f : Face) (d : Delta) : Prop where
  seq : d.seq = f.mem.seq + 1
  pre : ∀ sum, f.mem.sum = some sum → d.preChecksum = sum
  authored : Authored cfg d.seq d.preChecksum d.postChecksum d.bytes

theorem keeps_preChecksum : Keeps f (preChecksum cfg o : Run E UInt64)
    fun pre => ∀ sum, f.mem.sum = some sum → pre = sum := by
  refine keeps_state.bind fun s hs => ?_
  split
  · rename_i cs hcs
    refine .pure fun sum hsum => ?_
    rw [← hs.2] at hsum
    exact Option.some.inj (hcs.symm.trans hsum)
  · rename_i hnone
    refine keeps_perform.bind fun _ _ => keeps_get.bind fun w _ =>
      .pure fun sum hsum => ?_
    rw [← hs.2] at hsum
    exact absurd (hnone.symm.trans hsum) (by simp)

theorem keeps_encodeBatch (kind : String) (header : WalHeader) {batch : WalBatch}
    (hnodup : (batch.pageMap.map Prod.fst).Nodup) :
    Keeps f (encodeBatch cfg o kind header batch : Run E Delta) (Fresh cfg f) := by
  refine keeps_preChecksum.bind fun pre hpre => keeps_state.bind fun s hs => ?_
  dsimp only
  split
  · exact keeps_fail
  · split
    · exact keeps_fail
    · rename_i bytes post henc
      refine .pure ⟨?_, hpre, authored_of_encode hnodup henc⟩
      rw [← hs.2]
      rfl

theorem keeps_planSync : Keeps f (planSync cfg o : Run E Plan) fun plan => ∀ d, plan = .publish d → Fresh cfg f d := by
  refine keeps_readWalHeader.bind fun header _ => ?_
  cases header with
  | none => exact .pure nofun
  | some header =>
    refine (keeps_readNextWalBatch header).bind fun batch hnodup => ?_
    split
    · exact .pure nofun
    split
    · exact .pure nofun
    · refine (keeps_encodeBatch _ header hnodup).bind fun d hd => .pure ?_
      rintro _ ⟨⟩
      exact hd

/-! ### Snapshots and `state.json` -/

theorem keeps_releaseCheckpointBlocker :
    Keeps f (releaseCheckpointBlocker o : Run E Unit) fun _ => True := by
  refine keeps_state.bind fun s _ => ?_
  split
  · exact .bind (keeps_modifyState fun _ => ⟨rfl, rfl⟩) fun _ _ => keeps_perform
  · exact .pure trivial

theorem keeps_checkpointWal : Keeps f (checkpointWal o : Run E Unit) fun _ => True := by
  refine keeps_perform.bind fun _ _ => ?_
  rintro _ - w rfl
  exact ⟨rfl, trivial⟩

theorem keeps_reacquireCheckpointBlocker :
    Keeps f (reacquireCheckpointBlocker o : Run E Unit) fun _ => True := by
  refine keeps_state.bind fun s _ => ?_
  split
  · exact .pure trivial
  · exact keeps_perform.bind fun _ _ => keeps_interfere.bind fun _ _ =>
      keeps_modifyState fun _ => ⟨rfl, rfl⟩

theorem keeps_resetWalCursorAfterSnapshot :
    Keeps f (resetWalCursorAfterSnapshot o : Run E Unit) fun _ => True := by
  refine keeps_interfere.bind fun _ _ => keeps_get.bind fun w _ => ?_
  exact keeps_modifyState fun _ => ⟨rfl, rfl⟩

/-- The snapshot of the writer's next seq. -/
structure PlannedSnapshot.Next (f : Face) (p : PlannedSnapshot) : Prop where
  name : p.name = f.name
  seq : p.seq = f.mem.seq + 1
  key : ∃ lineage, p.key = .changeset lineage .snapshot p.seq

theorem keeps_planSnapshot : Keeps f (planSnapshot cfg o : Run E PlannedSnapshot) (PlannedSnapshot.Next f) := by
  refine keeps_releaseCheckpointBlocker.bind fun _ _ => keeps_checkpointWal.bind fun _ _ =>
    keeps_reacquireCheckpointBlocker.bind fun _ _ => keeps_perform.bind fun _ _ => keeps_get.bind fun _ _ => ?_
  dsimp only
  split
  · exact keeps_fail
  · refine keeps_perform.bind fun _ _ => keeps_get.bind fun _ _ => keeps_state.bind fun s hs =>
      keeps_perform.bind fun _ _ => keeps_get.bind fun _ _ => ?_
    split
    · exact keeps_fail
    · exact .pure ⟨hs.1, congrArg (·.seq + 1) hs.2, s.lineageId, rfl⟩

/-- A snapshot's put touches no incremental, and its conflict is not one with an incremental. -/
theorem putSnapshot_reads {p : PlannedSnapshot} (hp : p.Next f) :
    Reads World.face f (putChangesetIfAbsent cfg o .putSnapshot p.key p.bytes p.name p.seq
      "walrust-owned snapshot" : Run E Unit) (fun _ => True) (Stop.Aside cfg f.name) := by
  obtain ⟨lineage, hkey⟩ := hp.key
  have hput : Triple (fun w : World E => w.face = f)
      (putAbsent p.key p.bytes (conflictMessage cfg p.key p.name p.seq "walrust-owned snapshot"))
      (fun _ w => w.face = f) fun e w => w.face = f ∧ e.Aside cfg f.name := by
    intro w hw
    split
    · rename_i a w' hok
      rcases putAbsent_ok.mp hok with ⟨-, rfl⟩ | ⟨-, rfl⟩
      · rw [← hw]
        simp only [World.face, Face.mk.injEq, true_and]
        funext lineage n
        exact Store.get_put_of_ne _ _ (by simp [hkey])
      · exact hw
    · rename_i e w' herr
      obtain ⟨rfl, rfl, -⟩ := putAbsent_error herr
      refine ⟨hw, fun lineage n h => ?_⟩
      injection h with h
      injection h with h
      rw [hp.name] at h
      exact conflictMessage_snapshot_ne _ _ _ _ _ _ h
  refine (performWrite_triple .putSnapshot hput).post (fun _ _ h => ⟨h, trivial⟩) fun e w h => ?_
  rcases h with ⟨he, hw⟩ | h
  · exact ⟨hw.elim id id, he.aside⟩
  · exact h

variable (cfg o f)

/-- A snapshot moves the writer by one seq, or stops with it where it was. -/
theorem takeSnapshot_triple : Triple (fun w : World E => w.face = f) (takeSnapshot cfg o)
    (fun _ w => ∃ sum, w.face = f.move (f.mem.seq + 1) sum)
    fun e w => e.Aside cfg f.name ∧ (w.face = f ∨ ∃ sum, w.face = f.move (f.mem.seq + 1) sum) := by
  rw [takeSnapshot_plan]
  refine keeps_planSnapshot.andThen (fun e w hw he => ⟨he, .inl hw⟩) fun p hp => ?_
  refine (putSnapshot_reads hp).andThen (fun e w hw he => ⟨he, .inl hw⟩) fun _ _ => ?_
  rw [← hp.seq]
  -- the cursor moves, then only its WAL fields change
  refine .bind (move_triple fun _ => ⟨rfl, rfl⟩) fun _ => ?_
  exact (keeps_resetWalCursorAfterSnapshot (f := f.move p.seq p.checksum)).reads.post
    (fun _ w h => ⟨_, h.1⟩) fun e w h => ⟨h.2.aside, .inr ⟨_, h.1⟩⟩

theorem saveState_triple : Triple (fun w : World E => w.face = f) (saveState o)
    (fun _ w => w.face = f.save) fun e w => e.Aside cfg f.name ∧ (w.face = f ∨ w.face = f.save) := by
  have hwrite : Triple (fun w : World E => w.face = f)
      (modify fun w => { w with stateJson := some w.st.saved } : Run E Unit) (fun _ w => w.face = f.save)
      fun _ _ => False := by
    rintro w rfl
    rfl
  exact (performWrite_triple .saveState hwrite).post (fun _ _ h => h)
    fun e w h => ⟨(h.resolve_right id).1.aside, (h.resolve_right id).2⟩

/-! ### Publishing -/

/-- The recorded intent proves that the writer stored `existing` at `seq`, over `pre`. -/
def Ours (cfg : Config) (intent : Option PublishIntent) (lineage : Option String) (seq : Nat)
    (pre post : UInt64) (existing : Bytes) : Prop :=
  intent = some ⟨lineage, seq, pre, post⟩ ∧ Authored cfg seq pre post existing

/-- `existing_changeset_is_our_publish` decides `Ours`. -/
theorem keeps_existingChangesetIsOurPublish (seq : Nat) (pre : UInt64) (prior : Option PublishIntent) :
    Keeps f (existingChangesetIsOurPublish cfg o (.changeset f.mem.lineageId .live seq) seq pre
        f.mem.lineageId prior : Run E (Option UInt64)) fun
      | some post => ∃ existing, f.live f.mem.lineageId seq = some existing ∧
          Ours cfg prior f.mem.lineageId seq pre post existing
      | none => ∀ existing post, f.live f.mem.lineageId seq = some existing →
          ¬ Ours cfg prior f.mem.lineageId seq pre post existing := by
  unfold existingChangesetIsOurPublish
  cases prior with
  | none => exact .pure fun _ _ _ h => by cases h.1
  | some intent =>
    dsimp only
    split
    · rename_i hother
      refine .pure fun existing post _ h => ?_
      cases h.1
      simp at hother
    rename_i hnames
    simp only [not_or, not_not] at hnames
    obtain ⟨hseq, hpre, hlin⟩ := hnames
    have hintent : ∀ post, intent.changesetChecksum = post →
        some intent = some (⟨f.mem.lineageId, seq, pre, post⟩ : PublishIntent) := by
      rintro post rfl
      rw [← hseq, ← hpre, ← hlin]
    refine keeps_perform.bind fun _ _ => keeps_get.bind fun w hw => ?_
    have hlive : w.bucket.get (.changeset f.mem.lineageId .live seq) = f.live f.mem.lineageId seq :=
      congrFun (congrFun (congrArg Face.live hw) _) _
    rw [hlive]
    split
    · rename_i hnone
      exact .pure fun _ _ h => absurd (hnone.symm.trans h) (by simp)
    rename_i existing hsome
    split
    · rename_i e hdec
      refine .pure fun existing' post hget h => ?_
      obtain rfl := Option.some.inj (hsome.symm.trans hget)
      obtain ⟨cs, hcs, -⟩ := h.2
      rw [hdec] at hcs
      cases hcs
    · rename_i cs hdec
      split
      · rename_i hmatch
        exact .pure ⟨existing, hsome, hintent _ hmatch.2.2.symm, cs, hdec, hmatch.1, hmatch.2.1, rfl⟩
      · rename_i hmatch
        refine .pure fun existing' post hget h => hmatch ?_
        obtain rfl := Option.some.inj (hsome.symm.trans hget)
        obtain ⟨cs', hcs, h1, h2, h3⟩ := h.2
        cases hdec.symm.trans hcs
        have := Option.some.inj h.1
        exact ⟨h1, h2, by rw [h3, this]⟩

theorem face_put_live {d : Delta} :
    ({ w with bucket := w.bucket.put (.changeset w.st.lineageId .live d.seq) d.bytes } : World E).face =
      w.face.store d := by
  have hlive : (fun lineage seq => (w.bucket.put (.changeset w.st.lineageId .live d.seq) d.bytes).get
      (.changeset lineage .live seq)) = (w.face.store d).live := by
    funext lineage n
    show _ = if lineage = w.st.lineageId ∧ n = d.seq then some d.bytes else
      w.bucket.get (.changeset lineage .live n)
    split
    · rename_i hkey
      rw [hkey.1, hkey.2]
      exact Store.get_put_self _ _ _
    · rename_i hkey
      refine Store.get_put_of_ne _ _ fun h => hkey ?_
      injection h with h1 _ h3
      exact ⟨h1, h3⟩
  simp only [World.face, hlive]
  rfl

theorem Face.store_same {d : Delta} (h : f.live f.mem.lineageId d.seq = some d.bytes) : f.store d = f := by
  have hlive : (f.store d).live = f.live := by
    funext lineage n
    show (if lineage = f.mem.lineageId ∧ n = d.seq then some d.bytes else f.live lineage n) = _
    split
    · rename_i hkey
      rw [hkey.1, hkey.2, h]
    · rfl
  calc f.store d = { f with live := (f.store d).live } := rfl
    _ = f := by rw [hlive]

/-- The put of a fresh batch finds the key free, or holding the same bytes. -/
def Face.Takes (d : Delta) : Prop :=
  f.live f.mem.lineageId d.seq = none ∨ f.live f.mem.lineageId d.seq = some d.bytes

theorem putDelta_triple (d : Delta) :
    Triple (fun w : World E => w.face = f)
      (putChangesetIfAbsent cfg o .putDelta (.changeset f.mem.lineageId .live d.seq) d.bytes f.name d.seq
        "walrust-owned")
      (fun _ w => f.Takes d ∧ w.face = f.store d)
      fun e w => (e.Plain ∧ (w.face = f ∨ (f.Takes d ∧ w.face = f.store d))) ∨
        e = liveConflict cfg f.name f.mem.lineageId d.seq ∧ w.face = f ∧
          ∃ existing, f.live f.mem.lineageId d.seq = some existing ∧ existing ≠ d.bytes := by
  refine performWrite_triple .putDelta ?_
  rintro w rfl
  split
  · rename_i a w' hok
    rcases putAbsent_ok.mp hok with ⟨hfree, rfl⟩ | ⟨hsame, rfl⟩
    · exact ⟨.inl hfree, face_put_live⟩
    · exact ⟨.inr hsame, (Face.store_same _ hsame).symm⟩
  · rename_i e w' herr
    obtain ⟨rfl, rfl, existing, hget, hne⟩ := putAbsent_error herr
    exact ⟨rfl, rfl, existing, hget, hne⟩

/-- A put with a way out for conflicts. -/
theorem onConflict_triple {P M : World E → Prop} {Rput : Stop → World E → Prop} {put : Run E Unit}
    {next : Run E β} {conflict : String → Run E β} (hput : Triple P put (fun _ => M) Rput)
    (hnext : Triple M next Q R) (hconflict : ∀ msg, Triple (Rput (.err (.equivocation msg))) (conflict msg) Q R)
    (hstop : ∀ e w, e.Plain → Rput e w → R e w) : Triple P (onConflict put next conflict) Q R := by
  intro w hw
  have h := hput w hw
  unfold onConflict
  cases hres : put w with
  | ok a w' =>
    rw [hres] at h
    exact hnext w' h
  | error e w' =>
    rw [hres] at h
    cases e with
    | crash => exact hstop _ _ Stop.plain_crash h
    | stuck => exact hstop _ _ Stop.plain_stuck h
    | err e =>
      cases e with
      | equivocation msg => exact hconflict msg w' h
      | other msg => exact hstop _ _ (Stop.plain_other msg) h

/-- Where a publish that runs to its end stands before `state.json` is written. -/
inductive Settled (d : Delta) : Face → Prop where
  | published (h : f.Takes d) : Settled d (((f.record d).store d).move d.seq d.postChecksum)
  | adopted (existing : Bytes) (post sum : UInt64) (hget : f.live f.mem.lineageId d.seq = some existing)
      (hours : Ours cfg f.intent f.mem.lineageId d.seq d.preChecksum post existing) :
      Settled d (((f.record d).move d.seq post).move (d.seq + 1) sum)

/-- Where a publish can be cut once its intent is recorded. -/
inductive CutAt (d : Delta) : Face → Prop where
  | recorded : CutAt d (f.record d)
  | stored (h : f.Takes d) : CutAt d ((f.record d).store d)
  | adopting (existing : Bytes) (post : UInt64) (hget : f.live f.mem.lineageId d.seq = some existing)
      (hours : Ours cfg f.intent f.mem.lineageId d.seq d.preChecksum post existing) :
      CutAt d ((f.record d).move d.seq post)
  | unsaved {f' : Face} (h : Settled cfg f d f') : CutAt d f'
  | saved {f' : Face} (h : Settled cfg f d f') : CutAt d f'.save

/-- The conflict is reported: another object is there, and the prior intent does not name it. -/
structure Conflict (d : Delta) (e : Stop) (f' : Face) : Prop where
  stop : e = liveConflict cfg f.name f.mem.lineageId d.seq
  face : f' = f.record d
  foreign : ∃ existing, f.live f.mem.lineageId d.seq = some existing ∧ existing ≠ d.bytes ∧
    ∀ post, ¬ Ours cfg f.intent f.mem.lineageId d.seq d.preChecksum post existing

/-- How a publish stops: before its intent is recorded, cut behind it, or with the conflict. -/
def Halts (d : Delta) (e : Stop) (w : World E) : Prop :=
  (e.Aside cfg f.name ∧ (w.face = f ∨ CutAt cfg f d w.face)) ∨ Conflict cfg f d e w.face

/-- An adoption moves the writer over the object, and a snapshot further. -/
theorem adoptPublish_triple (d : Delta) (post : UInt64) :
    Triple (fun w : World E => w.face = f) (adoptPublish cfg o d post)
      (fun _ w => ∃ sum, w.face = ((f.move d.seq post).move (d.seq + 1) sum).save)
      fun e w => e.Aside cfg f.name ∧ (w.face = f.move d.seq post ∨
        ∃ sum, w.face = (f.move d.seq post).move (d.seq + 1) sum ∨
          w.face = ((f.move d.seq post).move (d.seq + 1) sum).save) := by
  refine Triple.bind (move_triple fun _ => ⟨rfl, rfl⟩) fun _ => ?_
  refine Triple.bind ((takeSnapshot_triple cfg o (f.move d.seq post)).post (fun _ _ h => h)
    fun e w h => ⟨h.1, h.2.imp_right fun ⟨sum, hw⟩ => ⟨sum, .inl hw⟩⟩) fun _ => ?_
  rintro w ⟨sum, hw⟩
  refine Triple.bind (M := fun _ w => w.face = ((f.move d.seq post).move (d.seq + 1) sum).save)
    ((saveState_triple cfg o ((f.move d.seq post).move (d.seq + 1) sum)).post (fun _ _ h => h)
      fun e w h => ⟨h.1, .inr ⟨sum, h.2⟩⟩) ?_ w hw
  exact fun _ w hw => ⟨sum, hw⟩

/-- **The owned publish**, under every placement of faults. -/
theorem publishOwned_triple (d : Delta) : Triple (fun w : World E => w.face = f) (publishOwned cfg o d)
    (fun _ w => ∃ f', Settled cfg f d f' ∧ w.face = f'.save) (Halts cfg f d) := by
  have hstop : ∀ (e : Stop) (w : World E), w.face = f → e.Aside cfg f.name → Halts cfg f d e w :=
    fun e w hw he => .inl ⟨he, .inl hw⟩
  have hcut : ∀ (e : Stop) (w : World E), e.Aside cfg f.name → CutAt cfg f d w.face → Halts cfg f d e w :=
    fun e w he hw => .inl ⟨he, .inr hw⟩
  -- both ways to the end write `state.json` last
  have hsave : ∀ {n : Nat} {f' : Face}, Settled cfg f d f' → f'.name = f.name →
      Triple (fun w : World E => w.face = f') (do saveState o; return n)
        (fun _ w => ∃ f', Settled cfg f d f' ∧ w.face = f'.save) (Halts cfg f d) := by
    intro n f' hf' hname
    refine Triple.bind (M := fun _ w => w.face = f'.save) ?_ fun _ w hw => ⟨f', hf', hw⟩
    refine (saveState_triple cfg o f').post (fun _ _ h => h) fun e w h => ?_
    rw [hname] at h
    rcases h.2 with hw | hw
    · exact hcut e w h.1 (hw ▸ .unsaved hf')
    · exact hcut e w h.1 (hw ▸ .saved hf')
  refine keeps_state.andThen hstop fun s hs => ?_
  obtain ⟨hname, hanchor⟩ := hs
  have hlin : s.lineageId = f.mem.lineageId := congrArg Anchor.lineageId hanchor
  dsimp only [stateKey]
  rw [hname, hlin]
  have hload : Keeps f (loadPublishIntent o : Run E (Option PublishIntent)) fun p => p = f.intent :=
    keeps_perform.bind fun _ _ => keeps_get.bind fun w hw =>
      .pure (congrArg Face.intent hw)
  refine hload.andThen hstop ?_
  rintro prior rfl
  have hrecord : Triple (fun w : World E => w.face = f)
      (savePublishIntent o d.seq d.preChecksum d.postChecksum) (fun _ w => w.face = f.record d)
      (Halts cfg f d) := by
    have hwrite : Triple (fun w : World E => w.face = f)
        (modify fun w => { w with intent := some ⟨w.st.lineageId, d.seq, d.preChecksum, d.postChecksum⟩ } :
          Run E Unit) (fun _ w => w.face = f.record d) fun _ _ => False := by
      rintro w rfl
      rfl
    refine (performWrite_triple .saveIntent hwrite).post (fun _ _ h => h)
      fun e w h => ?_
    obtain ⟨he, hw⟩ := h.resolve_right id
    rcases hw with hw | hw
    · exact hstop e w hw he.aside
    · exact hcut e w he.aside (hw ▸ .recorded)
  refine Triple.bind hrecord fun _ => ?_
  refine onConflict_triple (putDelta_triple cfg o (f.record d) d)
    (Q := fun _ w => ∃ f', Settled cfg f d f' ∧ w.face = f'.save) ?_ ?_ ?_
  · -- the object is there: the cursor moves over it
    rintro w ⟨htakes, hw⟩
    exact Triple.bind (move_triple (f := (f.record d).store d) (g := advanceCursor d) fun _ => ⟨rfl, rfl⟩)
      (fun _ => hsave (Settled.published (f := f) htakes) rfl) w hw
  · -- another object is there: it is ours, or the conflict is reported
    rintro msg w (⟨hplain, -⟩ | ⟨hmsg, hw, existing, hget, hne⟩)
    · exact absurd rfl (hplain msg)
    refine Keeps.andThen (keeps_existingChangesetIsOurPublish cfg o (f.record d) d.seq d.preChecksum
      f.intent) (fun e w hw he => hcut e w he (hw ▸ .recorded)) (fun res hres => ?_) w hw
    cases res with
    | none =>
      intro w hw
      exact .inr ⟨hmsg, hw, existing, hget, hne, fun post => hres existing post hget⟩
    | some post =>
      obtain ⟨existing', hget', hours⟩ := hres
      have hadopted := fun sum => Settled.adopted (f := f) existing' post sum hget' hours
      refine (adoptPublish_triple cfg o (f.record d) d post).post
        (fun _ w ⟨sum, hw⟩ => ⟨_, hadopted sum, hw⟩) fun e w h => ?_
      rcases h.2 with hw | ⟨sum, hw | hw⟩
      · exact hcut e w h.1 (hw ▸ .adopting existing' post hget' hours)
      · exact hcut e w h.1 (hw ▸ .unsaved (hadopted sum))
      · exact hcut e w h.1 (hw ▸ .saved (hadopted sum))
  · intro e w he h
    rcases h with ⟨-, hw | ⟨htakes, hw⟩⟩ | ⟨rfl, -⟩
    · exact hcut e w he.aside (hw ▸ .recorded)
    · exact hcut e w he.aside (hw ▸ .stored htakes)
    · exact absurd rfl (he _)

/-! ### A whole call -/

/-- A call that records no intent: the writer stays, or re-anchors with a snapshot. -/
inductive Untouched : Face → Prop where
  | still : Untouched f
  | moved (sum : UInt64) : Untouched (f.move (f.mem.seq + 1) sum)
  | saved (sum : UInt64) : Untouched (f.move (f.mem.seq + 1) sum).save

/-- **What an owned sync can do**, under every placement of faults and interference. -/
theorem syncWal_triple : Triple (fun w : World E => w.face = f) (syncWal cfg o)
    (fun _ w => Untouched f w.face ∨ ∃ d f', Fresh cfg f d ∧ Settled cfg f d f' ∧ w.face = f'.save)
    fun e w => (e.Aside cfg f.name ∧ Untouched f w.face) ∨
      ∃ d, Fresh cfg f d ∧ ((e.Aside cfg f.name ∧ CutAt cfg f d w.face) ∨ Conflict cfg f d e w.face) := by
  have hstop : ∀ (e : Stop) (w : World E), w.face = f → e.Aside cfg f.name →
      (e.Aside cfg f.name ∧ Untouched f w.face) ∨
        ∃ d, Fresh cfg f d ∧ ((e.Aside cfg f.name ∧ CutAt cfg f d w.face) ∨ Conflict cfg f d e w.face) :=
    fun e w hw he => .inl ⟨he, hw ▸ .still⟩
  rw [syncWal_plan]
  refine keeps_planSync.andThen hstop fun plan hplan => ?_
  cases plan with
  | nothing => exact fun w hw => .inl (hw ▸ .still)
  | reanchor =>
    refine Triple.bind ((takeSnapshot_triple cfg o f).post (fun _ _ h => h)
      fun e w h => ?_) fun _ => ?_
    · rcases h.2 with hw | ⟨sum, hw⟩
      · exact hstop e w hw h.1
      · exact .inl ⟨h.1, hw ▸ .moved sum⟩
    rintro w ⟨sum, hw⟩
    refine Triple.bind (M := fun _ w => w.face = (f.move (f.mem.seq + 1) sum).save)
      ((saveState_triple cfg o (f.move (f.mem.seq + 1) sum)).post (fun _ _ h => h) fun e w h => ?_) ?_ w hw
    · rcases h.2 with hw | hw
      · exact .inl ⟨h.1, hw ▸ .moved sum⟩
      · exact .inl ⟨h.1, hw ▸ .saved sum⟩
    · exact fun _ w hw => .inl (hw ▸ .saved sum)
  | publish d =>
    have hd := hplan d rfl
    refine (publishOwned_triple cfg o f d).post (fun _ w h => .inr ⟨d, h.imp fun _ h => ⟨hd, h⟩⟩) fun e w h => ?_
    rcases h with ⟨he, hw | hcut⟩ | hconflict
    · exact hstop e w hw he
    · exact .inr ⟨d, hd, .inl ⟨he, hcut⟩⟩
    · exact .inr ⟨d, hd, .inr hconflict⟩

end Effects

/-! ## The invariant -/

namespace Face

variable {f f' : Face} {d : Delta}

/-- Where a reopened writer would stand. -/
def resume (f : Face) : Anchor := f.saved.getD ⟨none, 0, none⟩

/-- `state.json` is not ahead of the writer, no incremental lies beyond the seq after `state.json`'s, and one
    at that seq is named by the intent. -/
structure Recoverable (cfg : Config) (f : Face) : Prop where
  lineage : f.resume.lineageId = f.mem.lineageId
  chained : ∃ sum, f.mem.sum = some sum
  le : f.resume.seq ≤ f.mem.seq
  same : f.resume.seq = f.mem.seq → ∀ sum, f.resume.sum = some sum → f.mem.sum = some sum
  free : ∀ n, f.resume.seq + 1 < n → f.live f.mem.lineageId n = none
  proven : ∀ existing, f.live f.mem.lineageId (f.resume.seq + 1) = some existing →
    ∃ sum post, f.resume.sum = some sum ∧
      Ours cfg f.intent f.mem.lineageId (f.resume.seq + 1) sum post existing

/-- An incremental at the writer's next seq is the writer's own, and the intent proves it. -/
theorem Recoverable.ours (h : f.Recoverable cfg) (hd : Fresh cfg f d) {existing : Bytes}
    (hget : f.live f.mem.lineageId d.seq = some existing) :
    ∃ post, Ours cfg f.intent f.mem.lineageId d.seq d.preChecksum post existing := by
  have hseq : f.resume.seq = f.mem.seq := by
    refine le_antisymm h.le (not_lt.mp fun hlt => ?_)
    have hnone := h.free d.seq (by rw [hd.seq]; omega)
    exact absurd (hnone.symm.trans hget) (by simp)
  have hnext : d.seq = f.resume.seq + 1 := by rw [hd.seq, hseq]
  rw [hnext] at hget ⊢
  obtain ⟨sum, post, hsum, hours⟩ := h.proven existing hget
  rw [hd.pre sum (h.same hseq sum hsum)]
  exact ⟨post, hours⟩

theorem Recoverable.no_conflict (h : f.Recoverable cfg) (hd : Fresh cfg f d) {e : Stop} :
    ¬ Conflict cfg f d e f' := by
  intro hc
  obtain ⟨existing, hget, -, hforeign⟩ := hc.foreign
  obtain ⟨post, hours⟩ := h.ours hd hget
  exact hforeign post hours

/-- The writer moves on, and nothing else changes. -/
theorem Recoverable.move (h : f.Recoverable cfg) {seq : Nat} (hlt : f.mem.seq < seq) (sum : UInt64) :
    (f.move seq sum).Recoverable cfg where
  lineage := h.lineage
  chained := ⟨sum, rfl⟩
  le := h.le.trans hlt.le
  same := fun heq => absurd heq (ne_of_lt (h.le.trans_lt hlt))
  free := h.free
  proven := h.proven

/-- Once `state.json` has caught up with a writer that moved on, nothing lies beyond it. -/
theorem Recoverable.save (h : f.Recoverable cfg) (hlin : f'.mem.lineageId = f.mem.lineageId)
    (hsum : ∃ sum, f'.mem.sum = some sum) (hlt : f.mem.seq < f'.mem.seq)
    (hlive : ∀ n, f'.mem.seq < n → f'.live f.mem.lineageId n = f.live f.mem.lineageId n) :
    f'.save.Recoverable cfg := by
  have hfree : ∀ n, f'.mem.seq < n → f'.live f'.mem.lineageId n = none := by
    intro n hn
    rw [hlin, hlive n hn]
    have := h.le
    exact h.free n (by omega)
  exact
    { lineage := rfl
      chained := hsum
      le := le_refl _
      same := fun _ _ h => h
      free := fun n hn => hfree n (Nat.lt_of_succ_lt hn)
      proven := fun existing hget => absurd ((hfree _ (lt_add_one _)).symm.trans hget) (by simp) }

theorem Recoverable.untouched (h : f.Recoverable cfg) (hu : Untouched f f') : f'.Recoverable cfg := by
  cases hu with
  | still => exact h
  | moved sum => exact h.move (lt_add_one _) sum
  | saved sum => exact h.save rfl ⟨sum, rfl⟩ (lt_add_one _) fun _ _ => rfl

theorem store_live_of_ne (d : Delta) {n : Nat} (hn : n ≠ d.seq) :
    (f.store d).live f.mem.lineageId n = f.live f.mem.lineageId n := if_neg fun h => hn h.2

theorem store_live_self (d : Delta) : (f.store d).live f.mem.lineageId d.seq = some d.bytes :=
  if_pos ⟨rfl, rfl⟩

theorem Recoverable.settled_save (h : f.Recoverable cfg) (hd : Fresh cfg f d) (hs : Settled cfg f d f') :
    f'.save.Recoverable cfg := by
  have hseq := hd.seq
  cases hs with
  | published _ =>
    refine h.save rfl ⟨_, rfl⟩ (by show f.mem.seq < d.seq; omega) fun n hn => ?_
    exact store_live_of_ne (f := f.record d) d (ne_of_gt hn)
  | adopted existing post sum _ _ =>
    exact h.save rfl ⟨sum, rfl⟩ (by show f.mem.seq < d.seq + 1; omega) fun _ _ => rfl

/-- A publish over a free key, with `state.json` where the writer stands: cut anywhere, it leaves its object
    named by its intent. -/
theorem Recoverable.cut_free (h : f.Recoverable cfg) (hd : Fresh cfg f d) (hsaved : f.saved = some f.mem)
    (hnext : f.next = none) (hc : CutAt cfg f d f') : f'.Recoverable cfg := by
  obtain ⟨sum, hsum⟩ := h.chained
  have hresume : f.resume = f.mem := by rw [resume, hsaved, Option.getD_some]
  have hfree : f.live f.mem.lineageId d.seq = none := by
    rw [hd.seq]
    exact hnext
  have hrecord : (f.record d).Recoverable cfg :=
    { h with
      proven := by
        intro existing hget
        have hget : f.live f.mem.lineageId (f.resume.seq + 1) = some existing := hget
        rw [hresume] at hget
        exact absurd (hnext.symm.trans hget) (by simp) }
  have hstore : ((f.record d).store d).Recoverable cfg :=
    { lineage := h.lineage
      chained := h.chained
      le := h.le
      same := h.same
      free := by
        intro n hn
        have hn : f.resume.seq + 1 < n := hn
        have hne : n ≠ d.seq := by
          rw [hd.seq]
          rw [hresume] at hn
          omega
        exact (store_live_of_ne (f := f.record d) d hne).trans (h.free n hn)
      proven := by
        intro existing hget
        have hseq : ((f.record d).store d).resume.seq + 1 = d.seq := by
          show f.resume.seq + 1 = d.seq
          rw [hresume, hd.seq]
        rw [hseq] at hget ⊢
        obtain rfl := Option.some.inj ((store_live_self (f := f.record d) d).symm.trans hget)
        refine ⟨sum, d.postChecksum, ?_, ?_, ?_⟩
        · show f.resume.sum = some sum
          rw [hresume, hsum]
        · show some (⟨f.mem.lineageId, d.seq, d.preChecksum, d.postChecksum⟩ : PublishIntent) = _
          rw [hd.pre sum hsum]
          rfl
        · rw [← hd.pre sum hsum]
          exact hd.authored }
  cases hc with
  | recorded => exact hrecord
  | stored _ => exact hstore
  | adopting existing post hget _ => exact absurd (hfree.symm.trans hget) (by simp)
  | unsaved hs =>
    cases hs with
    | published _ => exact hstore.move (by show f.mem.seq < d.seq; rw [hd.seq]; omega) _
    | adopted existing post sum hget _ => exact absurd (hfree.symm.trans hget) (by simp)
  | saved hs => exact h.settled_save hd hs

theorem record_same (h : (f.record d).intent = f.intent) : f.record d = f := by
  calc f.record d = { f with intent := (f.record d).intent } := rfl
    _ = f := by rw [h]

/-- A publish that leaves the intent and the object as they were has at most moved the writer. -/
theorem Recoverable.cut_same (h : f.Recoverable cfg) (hd : Fresh cfg f d) (hc : CutAt cfg f d f')
    (hintent : f'.intent = f.intent) (hlive : f'.live f.mem.lineageId d.seq = f.live f.mem.lineageId d.seq) :
    f'.Recoverable cfg := by
  have hlt : f.mem.seq < d.seq := by
    rw [hd.seq]
    exact lt_add_one _
  cases hc with
  | recorded => exact (record_same hintent).symm ▸ h
  | stored _ =>
    have hrec := record_same hintent
    rw [hrec] at hlive ⊢
    rw [store_same f (hlive.symm.trans (store_live_self d))]
    exact h
  | adopting existing post _ _ =>
    rw [record_same hintent]
    exact h.move hlt post
  | unsaved hs =>
    cases hs with
    | published _ =>
      have hrec := record_same hintent
      rw [hrec] at hlive ⊢
      rw [store_same f (hlive.symm.trans (store_live_self d))]
      exact h.move hlt _
    | adopted existing post sum _ _ =>
      rw [record_same hintent]
      exact (h.move hlt post).move (lt_add_one d.seq) sum
  | saved hs => exact h.settled_save hd hs

end Face

/-! ## Runs of one writer -/

section Runs

/-- The world after a call: what the call left, and after a crash what the reopened writer starts from. -/
inductive After {α : Type} (cfg : Config) : EStateM.Result Stop (World E) α → World E → Prop where
  | returned (a : α) (w : World E) : After cfg (.ok a w) w
  | failed (e : SyncError) (w : World E) : After cfg (.error (.err e) w) w
  | crashed (down : List A) (blocker : A) {w w' : World E}
      (h : addWithoutSnapshot cfg down blocker w = .ok () w') : After cfg (.error .crash w) w'

/-- Runs of one owned writer: commits and other actions of the application, syncs and snapshots with any
    faults, crashes with a reopen. `meets` is asked of every sync. -/
inductive OwnedRun (cfg : Config) (meets : Oracle A → World E → Prop) (w₀ : World E) : World E → Prop where
  | start : OwnedRun cfg meets w₀ w₀
  | env {w : World E} {db : E} (a : A) (hrun : OwnedRun cfg meets w₀ w) (h : SqliteEnv.act w.db a = some db) :
      OwnedRun cfg meets w₀ { w with db := db }
  | sync {w w' : World E} (o : Oracle A) (hrun : OwnedRun cfg meets w₀ w) (hmeets : meets o w)
      (h : After cfg (syncWal cfg o w) w') : OwnedRun cfg meets w₀ w'
  | snapshot {w w' : World E} (o : Oracle A) (hrun : OwnedRun cfg meets w₀ w)
      (h : After cfg (takeSnapshot cfg o w) w') : OwnedRun cfg meets w₀ w'
  | crash {w w' : World E} (down : List A) (blocker : A) (hrun : OwnedRun cfg meets w₀ w)
      (h : addWithoutSnapshot cfg down blocker w = .ok () w') : OwnedRun cfg meets w₀ w'

/-- A writer that was added: `add` has saved its state, or `add_without_snapshot` met a fresh database.
    Nothing is published beyond it. -/
structure Begun (w : World E) : Prop where
  state : w.stateJson = some w.st.saved ∨
    (w.stateJson = none ∧ w.st.lineageId = none ∧ w.st.currentSeq = 0)
  chained : w.st.dbChecksum.isSome
  fresh : ∀ n, w.st.currentSeq < n → w.bucket.get (stateKey w.st .live n) = none

/-- `state.json` does not stand where the writer stands, or an object lies at the next seq. -/
def AtRisk (w : World E) : Prop :=
  w.stateJson.map SavedState.anchor ≠ some w.st.anchor ∨
    w.bucket.get (stateKey w.st .live (w.st.currentSeq + 1)) ≠ none

/-- A call at risk is not cut once it has rewritten the intent: if it stops, it has left the intent and the
    object as they were, or it reports the conflict. The faults of the oracle do not decide this alone: an adoption
    takes a snapshot, and that can fail by itself (its key is taken, its pages do not encode). -/
def Recovers (cfg : Config) (o : Oracle A) (w : World E) : Prop :=
  AtRisk w → ∀ e w', syncWal cfg o w = .error e w' →
    (w'.intent = w.intent ∧ w'.bucket.get (stateKey w.st .live (w.st.currentSeq + 1)) =
      w.bucket.get (stateKey w.st .live (w.st.currentSeq + 1))) ∨
    e = liveConflict cfg w.st.name w.st.lineageId (w.st.currentSeq + 1)

variable {w₀ w' : World E} {o : Oracle A}

theorem Begun.recoverable (h : Begun w₀) : w₀.face.Recoverable cfg := by
  obtain ⟨sum, hsum⟩ := Option.isSome_iff_exists.mp h.chained
  have hlive : ∀ n, w₀.st.currentSeq < n → w₀.face.live w₀.face.mem.lineageId n = none := h.fresh
  have hresume : w₀.face.resume.lineageId = w₀.face.mem.lineageId ∧
      w₀.face.resume.seq = w₀.face.mem.seq ∧
      ∀ s, w₀.face.resume.sum = some s → w₀.face.mem.sum = some s := by
    rcases h.state with hs | ⟨hs, hlin, hseq⟩
    · simp [Face.resume, World.face, hs]
    · refine ⟨?_, ?_, ?_⟩
      · simp [Face.resume, World.face, hs, SyncState.anchor, hlin]
      · simp [Face.resume, World.face, hs, SyncState.anchor, hseq]
      · intro s hs'
        simp [Face.resume, World.face, hs] at hs'
  obtain ⟨hlin, hseq, hsame⟩ := hresume
  exact
    { lineage := hlin
      chained := ⟨sum, hsum⟩
      le := hseq.le
      same := fun _ => hsame
      free := fun n hn => hlive n (by rw [hseq] at hn; exact Nat.lt_of_succ_lt hn)
      proven := fun existing hget => by
        rw [hseq] at hget
        exact absurd ((hlive _ (lt_add_one _)).symm.trans hget) (by simp) }

/-- A reopened writer stands where `state.json` stands. -/
theorem reopenedState_anchor (cfg : Config) (name : String) (main : Bytes) (stateJson : Option SavedState) :
    (reopenedState cfg name main stateJson).name = name ∧
    ∃ sum, (∀ s, ((stateJson.map SavedState.anchor).getD ⟨none, 0, none⟩).sum = some s → sum = s) ∧
      (reopenedState cfg name main stateJson).anchor =
        { (stateJson.map SavedState.anchor).getD ⟨none, 0, none⟩ with sum := some sum } := by
  cases stateJson with
  | none =>
    refine ⟨rfl, _, ?_, rfl⟩
    intro s hs
    cases hs
  | some saved =>
    refine ⟨rfl, ?_⟩
    cases hsum : saved.dbChecksum with
    | none =>
      refine ⟨computeChecksumFromFile cfg.ph main, ?_, ?_⟩
      · intro s hs
        exact absurd (hsum.symm.trans hs) (by simp)
      · simp [reopenedState, SyncState.load, SyncState.anchor, SavedState.anchor, hsum]
    | some c =>
      refine ⟨c, ?_, ?_⟩
      · intro s hs
        exact Option.some.inj (hsum.symm.trans hs)
      · simp [reopenedState, SyncState.load, SyncState.anchor, SavedState.anchor, hsum]

theorem addWithoutSnapshot_triple {f : Face} {down : List A} :
    Triple (fun w : World E => w.face = f) (addWithoutSnapshot cfg down blocker)
      (fun _ w => ∃ sum, (∀ s, f.resume.sum = some s → sum = s) ∧
        w.face = { f with mem := { f.resume with sum := some sum } }) fun _ _ => True := by
  have hstop : ∀ (e : Stop) (w : World E), w.face = f → e.Aside cfg f.name → True := fun _ _ _ _ => trivial
  refine keeps_interfere.andThen hstop fun _ _ => keeps_get.andThen hstop fun v hv =>
    keeps_interfere.andThen hstop fun _ _ => ?_
  intro w hw
  obtain ⟨hname, sum, hsum, hanchor⟩ :=
    reopenedState_anchor cfg v.st.name (main v.db) v.stateJson
  have hresume : (v.stateJson.map SavedState.anchor).getD ⟨none, 0, none⟩ = f.resume :=
    congrArg Face.resume hv
  rw [hresume] at hsum hanchor
  generalize reopenedState cfg v.st.name (main v.db) v.stateJson = s at hname hanchor
  have hsame : s.name = f.name := hname.trans (congrArg Face.name hv)
  refine ⟨sum, hsum, ?_⟩
  show Face.mk s.name s.anchor w.face.saved w.face.intent w.face.live = _
  rw [hanchor, hsame, hw]

theorem Face.Recoverable.reopen (h : w.face.Recoverable cfg) {down : List A}
    (hopen : addWithoutSnapshot cfg down blocker w = .ok () w') : w'.face.Recoverable cfg := by
  obtain ⟨sum, hsum, hface⟩ := addWithoutSnapshot_triple.of_ok rfl hopen
  rw [hface]
  have hlin := h.lineage
  exact
    { lineage := rfl
      chained := ⟨sum, rfl⟩
      le := le_refl _
      same := fun _ s hs => congrArg some (hsum s hs)
      free := fun n hn => (congrArg (fun l => w.face.live l n) hlin).trans (h.free n hn)
      proven := by
        rw [hlin]
        exact h.proven }

theorem Face.Recoverable.after {α : Type} {res : EStateM.Result Stop (World E) α}
    (hok : ∀ a v, res = .ok a v → v.face.Recoverable cfg)
    (herr : ∀ e v, res = .error e v → v.face.Recoverable cfg) (h : After cfg res w') :
    w'.face.Recoverable cfg := by
  cases h with
  | returned a => exact hok a w' rfl
  | failed e => exact herr (.err e) w' rfl
  | crashed down blocker hopen => exact (herr .crash _ rfl).reopen hopen

theorem Face.Recoverable.sync (h : w.face.Recoverable cfg) (hmeets : Recovers cfg o w)
    (hafter : After cfg (syncWal cfg o w) w') : w'.face.Recoverable cfg := by
  refine Face.Recoverable.after (fun a v hv => ?_) (fun e v hv => ?_) hafter
  · rcases (syncWal_triple cfg o w.face).of_ok rfl hv with hu | ⟨d, f', hd, hs, hface⟩
    · exact h.untouched hu
    · rw [hface]
      exact h.settled_save hd hs
  rcases (syncWal_triple cfg o w.face).of_error rfl hv with ⟨-, hu⟩ | ⟨d, hd, ⟨haside, hcut⟩ | hconflict⟩
  · exact h.untouched hu
  · by_cases hrisk : AtRisk w
    · rcases hmeets hrisk e v hv with ⟨hintent, hget⟩ | rfl
      · refine h.cut_same hd hcut hintent ?_
        rw [hd.seq]
        exact hget
      · exact absurd rfl (haside _ _)
    · simp only [AtRisk, not_or, not_not] at hrisk
      exact h.cut_free hd hrisk.1 hrisk.2 hcut
  · exact absurd hconflict (h.no_conflict hd)

/-- **Every state of a run whose syncs all recover** has its own object named by the intent. -/
theorem OwnedRun.recoverable (h₀ : Begun w₀) (hrun : OwnedRun cfg (Recovers cfg) w₀ w) :
    w.face.Recoverable cfg := by
  induction hrun with
  | start => exact h₀.recoverable
  | env a _ _ ih => exact ih
  | sync o _ hmeets h ih => exact ih.sync hmeets h
  | @snapshot w w' o _ h ih =>
    refine Face.Recoverable.after (fun a v hv => ?_) (fun e v hv => ?_) h
    · obtain ⟨sum, hface⟩ := (takeSnapshot_triple cfg o w.face).of_ok rfl hv
      exact ih.untouched (hface ▸ .moved sum)
    · rcases ((takeSnapshot_triple cfg o w.face).of_error rfl hv).2 with hface | ⟨sum, hface⟩
      · exact ih.untouched (hface ▸ .still)
      · exact ih.untouched (hface ▸ .moved sum)
  | crash down blocker _ h ih => exact ih.reopen h

/-! ### Healthy calls -/

@[simp] theorem readState_name (w : World E) (header : WalHeader) (r : PageMapRead) :
    (readState w header r).name = w.st.name := by
  unfold readState noted noteGeneration advanceChain
  split <;> split <;> rfl

theorem face_readState (w : World E) (header : WalHeader) (r : PageMapRead) :
    (w.read header r).face = w.face := by
  have hanchor : (readState w header r).anchor = w.st.anchor := by
    simp [SyncState.anchor]
  simp only [World.face, readState_name, hanchor]

theorem Ready.fresh {header : WalHeader} {bytes : Bytes}
    (h : Ready cfg o w header r bytes post) : Fresh cfg w.face (deltaOf cfg w header r bytes post) where
  seq := rfl
  pre := fun sum hsum => by
    have hsum : w.st.dbChecksum = some sum := hsum
    show preOf cfg w = sum
    rw [preOf, hsum, Option.getD_some]
  authored := authored_of_encode (nodup_of_read h.next) h.encodes

/-- The intent of a batch is on disk. -/
abbrev World.record (w : World E) (d : Delta) : World E :=
  { w with intent := some ⟨w.st.lineageId, d.seq, d.preChecksum, d.postChecksum⟩ }

section Quiet

variable {d : Delta} {existing : Bytes}

/-- A healthy publish that finds its own object there, with the same bytes. -/
theorem publishOwned_quiet_same (hget : w.bucket.get (stateKey w.st .live d.seq) = some d.bytes) :
    publishOwned cfg (quiet b now) d w = .ok d.frameCount
      ⟨w.db, w.bucket, some (advanceCursor d w.st).saved,
        some ⟨w.st.lineageId, d.seq, d.preChecksum, d.postChecksum⟩, advanceCursor d w.st⟩ := by
  have hput : ∀ msg, putAbsent (stateKey w.st .live d.seq) d.bytes msg (w.record d) = .ok () (w.record d) :=
    fun msg => putAbsent_ok.mpr (.inr ⟨hget, rfl⟩)
  simp only [publishOwned, bind_apply, state_apply, loadPublishIntent, perform_quiet, get_apply, pure_apply,
    savePublishIntent, performWrite_quiet, modify_apply, putChangesetIfAbsent, onConflict, hput,
    modifyState_apply, saveState]

/-- A healthy publish that finds another object asks whether it is its own. -/
theorem publishOwned_quiet_taken (hget : w.bucket.get (stateKey w.st .live d.seq) = some existing)
    (hne : existing ≠ d.bytes) {ours : Option UInt64}
    (hours : existingChangesetIsOurPublish cfg (quiet b now) (stateKey w.st .live d.seq) d.seq
      d.preChecksum w.st.lineageId w.intent (w.record d) = .ok ours (w.record d)) :
    publishOwned cfg (quiet b now) d w =
      match ours with
      | some post => adoptPublish cfg (quiet b now) d post (w.record d)
      | none => .error (liveConflict cfg w.st.name w.st.lineageId d.seq) (w.record d) := by
  have hput : ∀ msg, putAbsent (stateKey w.st .live d.seq) d.bytes msg (w.record d) =
      .error (.err (.equivocation msg)) (w.record d) := by
    intro msg
    simp [putAbsent, hget, hne]
  simp only [publishOwned, bind_apply, state_apply, loadPublishIntent, perform_quiet, get_apply, pure_apply,
    savePublishIntent, performWrite_quiet, modify_apply, putChangesetIfAbsent, onConflict, hput, hours]
  cases ours <;> rfl

section

variable (hget : w.bucket.get (stateKey w.st .live d.seq) = some existing)
include hget

/-- A healthy publish that finds an object the prior intent names. -/
theorem publishOwned_quiet_adopt
    (hne : existing ≠ d.bytes) (hours : Ours cfg w.intent w.st.lineageId d.seq d.preChecksum post existing) :
    publishOwned cfg (quiet b now) d w = adoptPublish cfg (quiet b now) d post (w.record d) := by
  obtain ⟨hintent, cs, hdec, hseq, hpre, hpost⟩ := hours
  refine @publishOwned_quiet_taken _ _ _ cfg w b now d existing hget hne (some post) ?_
  simp only [existingChangesetIsOurPublish, hintent, ne_eq, not_true_eq_false, or_self, if_false, bind_apply,
    perform_quiet, get_apply, hget, hdec, hseq, hpre, hpost, and_self, if_true, pure_apply]

/-- A healthy publish that finds an object the prior intent does not name. -/
theorem publishOwned_quiet_conflict (hne : existing ≠ d.bytes) (hintent : w.intent = some intent)
    (hdec : decodeSqliteChangeset cfg.ph existing = .ok cs) (hsum : cs.checksum ≠ intent.changesetChecksum) :
    publishOwned cfg (quiet b now) d w = .error (liveConflict cfg w.st.name w.st.lineageId d.seq)
      (w.record d) := by
  refine @publishOwned_quiet_taken _ _ _ cfg w b now d existing hget hne none ?_
  rw [hintent, existingChangesetIsOurPublish]
  split
  · rfl
  · simp only [bind_apply, perform_quiet, get_apply, hget, hdec, hsum, and_false, if_false, pure_apply]

end

end Quiet

/-- The call passed the object at the next seq: it is still there, and the writer stands on it with its chain
    value, or one further, on the snapshot that re-anchors an adoption. -/
def Passes (cfg : Config) (w : World E) (existing : Bytes) (res : EStateM.Result Stop (World E) Nat) : Prop :=
  ∃ w', ((∃ n, res = .ok n w') ∨ ∃ e, res = .error e w') ∧
    w'.bucket.get (stateKey w.st .live (w.st.currentSeq + 1)) = some existing ∧
    ∃ post, Authored cfg (w.st.currentSeq + 1) (preOf cfg w) post existing ∧
      ((w'.st.currentSeq = w.st.currentSeq + 1 ∧ w'.st.dbChecksum = some post) ∨
        w'.st.currentSeq = w.st.currentSeq + 2)

theorem Face.Recoverable.passes (h : w.face.Recoverable cfg) {existing : Bytes}
    (hstored : w.bucket.get w.nextKey = some existing) {header : WalHeader}
    {bytes : Bytes} (hready : Ready cfg (quiet b now) w header r bytes post) :
    Passes cfg w existing (syncWal cfg (quiet b now) w) := by
  have hd := hready.fresh
  have hface := face_readState w header r
  have hget : (w.read header r).bucket.get
      (stateKey (readState w header r) .live (w.st.currentSeq + 1)) = some existing := by
    rw [stateKey_readState]
    exact hstored
  rw [hready.syncWal (quietRead_quiet b now)]
  by_cases hsame : existing = bytes
  · subst hsame
    rw [publishOwned_quiet_same hget]
    exact ⟨_, .inl ⟨_, rfl⟩, hstored, post, hd.authored, .inl ⟨rfl, rfl⟩⟩
  obtain ⟨post', hours⟩ := h.ours hd hstored
  rw [publishOwned_quiet_adopt hget hsame (by rw [readState_lineage]; exact hours)]
  -- where the adoption can leave the writer
  have htriple := adoptPublish_triple (E := E) cfg (quiet b now)
    (w.face.record (deltaOf cfg w header r bytes post)) (deltaOf cfg w header r bytes post) post'
  have hstart : ({ w with
      st := readState w header r
      intent := some ⟨(readState w header r).lineageId, w.st.currentSeq + 1, preOf cfg w, post⟩ } :
        World E).face = w.face.record (deltaOf cfg w header r bytes post) := by
    rw [← hface]
    rfl
  have hpasses : ∀ v : World E, v.face.live = w.face.live →
      ((v.face.mem.seq = w.st.currentSeq + 1 ∧ v.face.mem.sum = some post') ∨
        v.face.mem.seq = w.st.currentSeq + 2) →
      v.bucket.get w.nextKey = some existing ∧
        ∃ post, Authored cfg (w.st.currentSeq + 1) (preOf cfg w) post existing ∧
          ((v.st.currentSeq = w.st.currentSeq + 1 ∧ v.st.dbChecksum = some post) ∨
            v.st.currentSeq = w.st.currentSeq + 2) :=
    fun v hlive hseq => ⟨(congrFun (congrFun hlive _) _).trans hstored, post', hours.2, hseq⟩
  cases hres : adoptPublish cfg (quiet b now) (deltaOf cfg w header r bytes post) post' { w with
      st := readState w header r
      intent := some ⟨(readState w header r).lineageId, w.st.currentSeq + 1, preOf cfg w, post⟩ } with
  | ok n v =>
    obtain ⟨sum, hv⟩ := htriple.of_ok hstart hres
    exact ⟨v, .inl ⟨n, hres⟩, hpasses v (by rw [hv]; rfl) (.inr (by rw [hv]; rfl))⟩
  | error e v =>
    refine ⟨v, .inr ⟨e, hres⟩, ?_⟩
    rcases (htriple.of_error hstart hres).2 with hv | ⟨sum, hv | hv⟩
    · exact hpasses v (by rw [hv]; rfl) (.inl (by rw [hv]; exact ⟨rfl, rfl⟩))
    · exact hpasses v (by rw [hv]; rfl) (.inr (by rw [hv]; rfl))
    · exact hpasses v (by rw [hv]; rfl) (.inr (by rw [hv]; rfl))

/-- **The writer's own object is never rejected** in a run whose syncs all recover: no call reports a conflict
    with it, whatever happens to the call, and a healthy call with a batch passes it. -/
theorem own_publish_accepted (cfg : Config) {w₀ w : World E} (h₀ : Begun w₀)
    (hrun : OwnedRun cfg (Recovers cfg) w₀ w) {existing : Bytes}
    (hstored : w.bucket.get (stateKey w.st .live (w.st.currentSeq + 1)) = some existing) :
    (∀ (o : Oracle A) e w', syncWal cfg o w = .error e w' →
      e ≠ liveConflict cfg w.st.name w.st.lineageId (w.st.currentSeq + 1)) ∧
    ∀ (b : A) now header r bytes post, Ready cfg (Oracle.quiet b now) w header r bytes post →
      Passes cfg w existing (syncWal cfg (Oracle.quiet b now) w) := by
  have hrec := hrun.recoverable h₀
  refine ⟨fun o e w' herr => ?_, fun b now header r bytes post hready => hrec.passes hstored hready⟩
  rcases (syncWal_triple cfg o w.face).of_error rfl herr with
    ⟨haside, -⟩ | ⟨d, hd, ⟨haside, -⟩ | hconflict⟩
  · exact haside _ _
  · exact haside _ _
  · exact absurd hconflict (hrec.no_conflict hd)

end Runs

/-! ### A writer that reopens behind its own object -/

theorem publishOwned_crash (cfg : Config) (b : A) (now : Int64) {d : Delta}
    (hfree : w.bucket.get (stateKey w.st .live d.seq) = none) :
    publishOwned cfg (faultAt .saveState .crash b now) d w = .error .crash
      ⟨w.db, w.bucket.put (stateKey w.st .live d.seq) d.bytes, w.stateJson,
        some ⟨w.st.lineageId, d.seq, d.preChecksum, d.postChecksum⟩, advanceCursor d w.st⟩ := by
  simp [publishOwned, loadPublishIntent, savePublishIntent, putChangesetIfAbsent, onConflict, perform,
    performWrite, faultAt, putAbsent, hfree, saveState]

theorem Ready.syncWal_crash {cfg : Config} {header : WalHeader} {bytes : Bytes}
    (h : Ready cfg (faultAt .saveState .crash b now) w header r bytes post)
    (hfree : w.bucket.get w.nextKey = none) :
    Sync.syncWal cfg (faultAt .saveState .crash b now) w = .error .crash
      ⟨w.db, w.bucket.put w.nextKey bytes, w.stateJson,
        some ⟨w.st.lineageId, w.st.currentSeq + 1, preOf cfg w, post⟩,
        advanceCursor (deltaOf cfg w header r bytes post) (readState w header r)⟩ := by
  rw [h.syncWal (quietRead_faultAt _ _ _ (by decide)), publishOwned_crash]
  · rw [stateKey_readState, readState_lineage]
    rfl
  · rw [stateKey_readState]
    exact hfree

theorem addWithoutSnapshot_ok (cfg : Config) {db : E}
    (hact : SqliteEnv.act w.db blocker = some db) : addWithoutSnapshot cfg [] blocker w = .ok ()
      { w with
        db := db
        st := { reopenedState cfg w.st.name (main w.db) w.stateJson with
          checkpointBlocker := true } } := by
  simp only [addWithoutSnapshot, bind_apply, interfere_nil, get_apply, interfere_singleton, hact,
    modifyState_apply]

/-- A sync that dies before `state.json`, and the reopen. -/
theorem Ready.dies {cfg : Config} {db : E} {header : WalHeader} {bytes : Bytes}
    (h : Ready cfg (faultAt .saveState .crash b now) w header r bytes post)
    (hfree : w.bucket.get w.nextKey = none)
    (hact : SqliteEnv.act w.db blocker = some db) :
    ∃ w', After cfg (Sync.syncWal cfg (faultAt .saveState .crash b now) w) w' ∧ w'.db = db ∧
      w'.bucket = w.bucket.put (stateKey w.st .live (w.st.currentSeq + 1)) bytes ∧
      w'.intent = some ⟨w.st.lineageId, w.st.currentSeq + 1, preOf cfg w, post⟩ ∧
      w'.st = { reopenedState cfg w.st.name (main w.db) w.stateJson with
        checkpointBlocker := true } := by
  rw [h.syncWal_crash hfree]
  refine ⟨_, .crashed [] blocker (addWithoutSnapshot_ok cfg hact), rfl, rfl, rfl, ?_⟩
  rw [← readState_name w header r]
  rfl

theorem publishOwned_refusedPut (cfg : Config) (b : A) (now : Int64) (w : World E)
    (d : Delta) : ∃ e, publishOwned cfg (faultAt .putDelta .fails b now) d w =
      .error (.err e) (w.record d) := by
  simp [publishOwned, loadPublishIntent, savePublishIntent, putChangesetIfAbsent, onConflict, perform,
    performWrite, faultAt]

section Calls

variable {header : WalHeader} {bytes : Bytes}

theorem Ready.syncWal_refusedPut (h : Ready cfg (faultAt .putDelta .fails b now) w header r bytes post) :
    ∃ e, Sync.syncWal cfg (faultAt .putDelta .fails b now) w = .error (.err e)
      { w with
        st := readState w header r
        intent := some ⟨w.st.lineageId, w.st.currentSeq + 1, preOf cfg w, post⟩ } := by
  obtain ⟨e, he⟩ := publishOwned_refusedPut cfg b now (w.read header r)
    (deltaOf cfg w header r bytes post)
  refine ⟨e, ?_⟩
  rw [h.syncWal (quietRead_faultAt _ _ _ (by decide)), he, World.record, readState_lineage]
  rfl

theorem Ready.syncWal_conflict {existing : Bytes} (h : Ready cfg (quiet b now) w header r bytes post)
    (hget : w.bucket.get w.nextKey = some existing) (hne : existing ≠ bytes)
    (hintent : w.intent = some intent) (hdec : decodeSqliteChangeset cfg.ph existing = .ok cs)
    (hsum : cs.checksum ≠ intent.changesetChecksum) :
    Sync.syncWal cfg (quiet b now) w =
      .error (liveConflict cfg w.st.name w.st.lineageId (w.st.currentSeq + 1))
        { w with
          st := readState w header r
          intent := some ⟨w.st.lineageId, w.st.currentSeq + 1, preOf cfg w, post⟩ } := by
  have hget : (w.read header r).bucket.get
      (stateKey (readState w header r) .live (deltaOf cfg w header r bytes post).seq) = some existing := by
    rw [stateKey_readState]
    exact hget
  rw [h.syncWal (quietRead_quiet b now), publishOwned_quiet_conflict hget hne hintent hdec hsum,
    World.record, readState_lineage, readState_name]
  rfl

end Calls

/-- SHA-256 (first eight bytes) of what the runs below hash: the database file, the first snapshot, and the
    two incrementals, of which only the second has a byte 8. -/
def twoSha64 (bs : Bytes) : UInt64 :=
  if bs.length ≤ 512 then 14339146280585533889
  else if bs.length ≤ 528 then 2441181222545572533
  else if 8 ∈ bs then 14030766692732936177
  else 3963234172952512726

def twoConfig : Config := ⟨Compaction.physicalOf twoSha64, ""⟩

/-- The cursor of the one-page database after `add`: its snapshot is at seq 1. -/
def addedState : SyncState where
  name := "app"
  walOffset := 0
  walGeneration := 1
  currentSeq := 1
  lineageId := some "a"
  externalBase := none
  currentTxid := 1
  lastSnapshot := some 0
  dbChecksum := some 14339146280585533889
  walSalt := some (1, 2)
  walChecksumChain := none
  checkpointBlocker := true

/-- The one-page database after `add`, with the WAL pinned by the blocker's commit. -/
def added : World (Db 512) where
  db := pinned onePage.db (1, 2)
  bucket := Store.empty.put (.changeset (some "a") .snapshot 1)
    (snapshotChangeset twoConfig.ph 0 pageOne 512 1 14339146280585533889).wire
  stateJson := some addedState.saved
  intent := none
  st := addedState

theorem added_live {n : Nat} : added.bucket.get (.changeset (some "a") .live n) = none := by
  show Store.get (Store.put _ (Key.changeset (some "a") .snapshot 1) _) _ = none
  rfl

theorem length_added : added.db.image.length = 512 := by
  have h : added.db = pinned onePage.db (1, 2) := rfl
  rw [h]
  simp [pinned, touchOne, Txn.patch]

theorem begun_added : Begun added :=
  ⟨.inl rfl, rfl, fun _ _ => added_live⟩

/-- The bytes of page 1, of page 2 in its first version and of the size marker have no 8. -/
theorem no_eight : (∀ v ∈ [(⟨.u32 1, pageOne⟩ : PageEntry), ⟨.u32 2, fillBytes 512 7⟩, ⟨.u32 3, []⟩],
    (8 : UInt8) ∉ v.bytes) ∧ (8 : UInt8) ∉ Bytes.beBytes 8 (14339146280585533889 : UInt64).toNat := by
  decide +kernel

section Two

variable {pages : PageMap} {seq : UInt64}

/-- The incremental of the runs below. -/
abbrev twoDelta (now : Int64) (pages : PageMap) (seq : UInt64) : PhysicalChangeset :=
  deltaChangeset twoConfig.ph now pages 512 seq 14339146280585533889 2

/-- An incremental is hashed by the last two entries of the table. -/
theorem two_checksum (hne : pages ≠ []) (hlen : ∀ q ∈ pages, q.2.length = 512) :
    (twoDelta now pages seq).checksum =
      if (8 : UInt8) ∈ Bytes.beBytes 8 (14339146280585533889 : UInt64).toNat ++
        pagesBytes (twoDelta now pages seq).pages
      then 14030766692732936177 else 3963234172952512726 := by
  have hlength : (pagesBytes (twoDelta now pages seq).pages).length = (512 + 8) * pages.length + 8 :=
    length_pagesBytes_delta hlen
  have hpos := length_pos_iff.mpr hne
  rw [show (twoDelta now pages seq).checksum = twoSha64 (Bytes.beBytes 8 (14339146280585533889 : UInt64).toNat ++
    pagesBytes (twoDelta now pages seq).pages) from rfl]
  rw [twoSha64, if_neg (by rw [length_append]; omega), if_neg (by
    rw [length_append, Bytes.length_beBytes]
    omega)]

theorem two_checksum_first (hne : pages ≠ []) (hmem : ∀ q ∈ pages, q = (1, pageOne) ∨ q = (2, fillBytes 512 7)) :
    (twoDelta now pages seq).checksum =
      3963234172952512726 := by
  have hlen : ∀ q ∈ pages, q.2.length = 512 := by
    intro q hq
    rcases hmem q hq with rfl | rfl <;> simp
  rw [two_checksum hne hlen, if_neg]
  rw [mem_append, not_or]
  refine ⟨no_eight.2, fun h => ?_⟩
  obtain ⟨p, hp, h8⟩ := mem_flatMap.mp h
  refine no_eight.1 p ?_ h8
  rcases deltaChangeset_mem.mp hp with ⟨q, hq, rfl⟩ | rfl
  · rcases hmem q hq with rfl | rfl <;> simp
  · simp

theorem two_checksum_second (hlen : ∀ q ∈ pages, q.2.length = 512) (hmem : (2, fillBytes 512 8) ∈ pages) :
    (twoDelta now pages seq).checksum =
      14030766692732936177 := by
  rw [two_checksum (ne_nil_of_mem hmem) hlen, if_pos]
  refine mem_append_right _ (mem_flatMap.mpr ⟨⟨.u32 2, fillBytes 512 8⟩, ?_, ?_⟩)
  · exact deltaChangeset_mem.mpr (.inl ⟨_, hmem, rfl⟩)
  · refine mem_append_right _ ?_
    rw [fillBytes]
    exact mem_replicate.mpr ⟨by decide, rfl⟩

end Two

/-- The first sync of the run: the process dies before `state.json` is written. -/
def dying : Oracle (Action 512) := faultAt .saveState .crash (.commit (writeTwo 8)) 0

/-- The writer stands where `add` left it, behind an incremental of its own, with a second commit in the WAL. -/
structure Behind (w : World (Db 512)) (existing : Bytes) (cs : PhysicalChangeset) : Prop where
  name : w.st.name = "app"
  cursor : SameCursor (1, 2) addedState w.st
  wal : w.db.wal = some (pinnedLog [(writeTwo 7).txn, (writeTwo 8).txn])
  stored : w.bucket.get (.changeset (some "a") .live 2) = some existing
  decodes : decodeSqliteChangeset twoConfig.ph existing = .ok cs
  checksum : cs.checksum = 3963234172952512726

/-- A writer whose first sync dies before `state.json` reopens behind its own object. -/
theorem reopened_behind : ∃ (v w : World (Db 512)) (existing : Bytes) (cs : PhysicalChangeset),
    ¬ AtRisk v ∧ (∀ meets : Oracle (Action 512) → World (Db 512) → Prop, meets dying v →
      OwnedRun twoConfig meets added w) ∧ Behind w existing cs := by
  obtain ⟨db₁, hact₁, hwal₁, hrestart₁, himage₁⟩ := @act_writeTwo added.db [] rfl rfl
    length_added.ge 7
  obtain ⟨db₂, hact₂, hwal₂, -, -⟩ := act_writeTwo hwal₁ hrestart₁ (by omega) 8
  have hrun : ∀ meets : Oracle (Action 512) → World (Db 512) → Prop,
      OwnedRun twoConfig meets added { added with db := db₁ } := fun _ => .env _ .start hact₁
  obtain ⟨v, hv⟩ : ∃ v : World (Db 512), v = { added with db := db₁ } := ⟨_, rfl⟩
  have hst : v.st = addedState := by rw [hv]; rfl
  have hjson : v.stateJson = some addedState.saved := by rw [hv]; rfl
  have hfree : v.bucket.get v.nextKey = none := by
    rw [hv]
    exact added_live
  rw [← hv] at hrun
  have hdb : v.db = db₁ := by rw [hv]
  obtain ⟨r, bytes, post, hready, hp⟩ := ready_fromStart twoConfig dying (w := v)
    (by rw [hdb]; exact hwal₁) (by rw [hst]; rfl) (by rw [hst]; rfl) rfl (by simp [writeTwo])
  obtain ⟨hinput, hbytes, -⟩ := encodeWalChanges_ok hready.encodes
  have hsize : r.finalDbSize.toNat = 2 := hp.size 0
  have hpre : preOf twoConfig v = 14339146280585533889 := by
    rw [preOf, hst]
    rfl
  rw [hpre, hsize, hst] at hbytes
  have hinput : DeltaInput r.pageMap 512 2 := hsize ▸ hinput
  obtain ⟨w, hafter, hdb', hbucket, -, hst'⟩ := hready.dies hfree (by rw [hdb]; exact hact₂)
  refine ⟨v, w, bytes, deltaChangeset twoConfig.ph 0 r.pageMap 512 2 14339146280585533889 2, ?_,
    fun meets hmeets => .sync dying (hrun meets) hmeets hafter, ?_, ?_, ?_, ?_, ?_, ?_⟩
  · rintro (h | h)
    · rw [hjson, hst] at h
      exact h rfl
    · exact h hfree
  · rw [hst', hst, hjson]
    rfl
  · rw [hst', hst, hjson]
    exact SameCursor.refl _ _
  · rw [hdb']
    exact hwal₂
  · rw [hbucket, hst]
    exact Store.get_put_self _ _ _
  · rw [hbytes]
    exact decodeSqliteChangeset_wire (deltaChangeset_wellFormed hinput hp.nodup)
      (deltaChangeset_valid hinput hp.nodup)
  · refine two_checksum_first hp.nonempty fun q hq => ?_
    obtain ⟨t, ht, hqt⟩ := hp.mem q hq
    rcases mem_pair.mp ht with rfl | rfl
    · exact .inl (mem_singleton.mp hqt)
    · exact .inr (mem_singleton.mp hqt)

theorem Behind.preOf {w : World (Db 512)} {existing : Bytes} (h : Behind w existing cs) :
    preOf twoConfig w = 14339146280585533889 := by
  rw [Sync.preOf, h.cursor.checksum]
  rfl

theorem Behind.next {w : World (Db 512)} {existing : Bytes} (h : Behind w existing cs) :
    w.bucket.get (stateKey w.st .live (w.st.currentSeq + 1)) = some existing := by
  rw [stateKey, h.cursor.lineage, h.cursor.seq]
  exact h.stored

/-- Both commits are pending, and what is encoded of them is not the stored object. -/
theorem Behind.ready {w : World (Db 512)} {existing : Bytes} (h : Behind w existing cs)
    (o : Oracle (Action 512)) : ∃ header r bytes, existing ≠ bytes ∧
      Ready twoConfig o w header r bytes 14030766692732936177 ∧
      ∀ intent, Behind { w with st := readState w header r, intent := intent } existing cs := by
  have hsalt : w.st.walSalt = some (1, 2) := h.cursor.salt.elim id id
  obtain ⟨r, bytes, post, hready, hp⟩ := ready_fromStart twoConfig o h.wal hsalt h.cursor.offset rfl
    (by simp [writeTwo])
  obtain ⟨-, -, hpost⟩ := encodeWalChanges_ok hready.encodes
  have hsize : r.finalDbSize.toNat = 2 := hp.size 0
  have hlen : ∀ q ∈ r.pageMap, q.2.length = 512 := by
    intro q hq
    obtain ⟨t, -, hqt⟩ := hp.mem q hq
    exact t.dataLen q hqt
  have hmem : (2, fillBytes 512 8) ∈ r.pageMap := by
    obtain ⟨q, hq, hq2⟩ := mem_map.mp (Pages.mem_of_lastWrite ((hp.writes 2).trans
      (show _ = some (fillBytes 512 8) from rfl)))
    injection hq2 with h1 h2
    rwa [show q = (2, fillBytes 512 8) from Prod.ext (UInt32.toNat_inj.mp h1) h2] at hq
  have hsum : post = 14030766692732936177 := by
    rw [hpost, h.preOf, hsize]
    exact two_checksum_second hlen hmem
  subst hsum
  refine ⟨_, r, bytes, ?_, hready, fun intent => ?_⟩
  · -- the two decode to different checksums
    rintro rfl
    obtain ⟨cs', hdec, -, -, hcs⟩ := hready.fresh.authored
    obtain rfl := Except.ok.inj (h.decodes.symm.trans hdec)
    exact absurd (h.checksum.symm.trans hcs) (by show ¬ (_ : UInt64) = (14030766692732936177 : UInt64); decide)
  · exact
      { name := (readState_name w _ r).trans h.name
        cursor := h.cursor.trans (sameCursor_readState hready.stay (.inl h.cursor.offset))
        wal := h.wal
        stored := h.stored
        decodes := h.decodes
        checksum := h.checksum }

/-- The reopened writer passes the object: what it has to publish by then is more than the object, so the object
    is adopted. -/
theorem own_publish_accepted_reopened : ∃ (w₀ w : World (Db 512)) (existing : Bytes) (header : WalHeader)
    (r : PageMapRead) (bytes : Bytes) (post : UInt64), Begun w₀ ∧
      OwnedRun twoConfig (Recovers twoConfig) w₀ w ∧
      w.bucket.get (stateKey w.st .live (w.st.currentSeq + 1)) = some existing ∧ existing ≠ bytes ∧
      Ready twoConfig (Oracle.quiet (.commit (writeTwo 9)) 1) w header r bytes post ∧
      Passes twoConfig w existing (syncWal twoConfig (Oracle.quiet (.commit (writeTwo 9)) 1) w) := by
  obtain ⟨v, w, existing, cs, hrisk, hrun, h⟩ := reopened_behind
  have hrun := hrun (Recovers twoConfig) fun h => absurd h hrisk
  obtain ⟨header, r, bytes, hne, hready, -⟩ := h.ready (quiet (.commit (writeTwo 9)) 1)
  exact ⟨added, w, existing, header, r, bytes, _, begun_added, hrun, h.next, hne, hready,
    (own_publish_accepted twoConfig begun_added hrun h.next).2 _ _ _ _ _ _ hready⟩

/-! ### A writer that overwrites its proof -/

/-- Every one of these healthy calls, one after the other, reports a conflict with the object at seq 2. -/
def RejectsAll (cfg : Config) : List (Action 512 × Int64) → World (Db 512) → Prop
  | [], _ => True
  | (b, now) :: rest, w => ∃ w', syncWal cfg (quiet b now) w =
      .error (liveConflict cfg "app" (some "a") 2) w' ∧ RejectsAll cfg rest w'

/-- Once the intent names the second batch, the object is rejected, and the intent stays as it is. -/
theorem Behind.rejectsAll {existing : Bytes} {calls : List (Action 512 × Int64)} {w : World (Db 512)}
    (h : Behind w existing cs)
    (hintent : w.intent = some ⟨some "a", 2, 14339146280585533889, 14030766692732936177⟩) :
    RejectsAll twoConfig calls w := by
  induction calls generalizing w with
  | nil => trivial
  | cons call rest ih =>
    obtain ⟨b, now⟩ := call
    obtain ⟨header, r, bytes, hne, hready, hnext⟩ := h.ready (quiet b now)
    have hseq : w.st.currentSeq + 1 = 2 := by
      rw [h.cursor.seq]
      rfl
    have hlin : w.st.lineageId = some "a" := h.cursor.lineage
    have hcall := hready.syncWal_conflict h.next hne hintent h.decodes (by rw [h.checksum]; decide)
    rw [h.name, hlin, hseq, h.preOf] at hcall
    exact ⟨_, hcall, ih (hnext _) rfl⟩

/-- The writer reopens behind its own object, the put of its next sync is refused, and from then on the intent
    names an object that was never stored: every later call, on a healthy storage, reports a conflict with the
    writer's own object. -/
theorem intent_overwritten_rejects : ∃ (w₀ w : World (Db 512)) (existing : Bytes), Begun w₀ ∧
    w₀.bucket.get (stateKey w.st .live (w.st.currentSeq + 1)) = none ∧
    OwnedRun twoConfig (fun _ _ => True) w₀ w ∧
    w.bucket.get (stateKey w.st .live (w.st.currentSeq + 1)) = some existing ∧
    liveConflict twoConfig w.st.name w.st.lineageId (w.st.currentSeq + 1) =
      liveConflict twoConfig "app" (some "a") 2 ∧
    ∀ calls, RejectsAll twoConfig calls w := by
  obtain ⟨v, w, existing, cs, -, hrun, h⟩ := reopened_behind
  obtain ⟨header, r, bytes, -, hready, hnext⟩ :=
    h.ready (faultAt .putDelta .fails (.commit (writeTwo 9)) 1)
  obtain ⟨e, hcall⟩ := hready.syncWal_refusedPut
  have hseq : w.st.currentSeq = 1 := h.cursor.seq
  have hlin : w.st.lineageId = some "a" := h.cursor.lineage
  rw [hlin, hseq, h.preOf] at hcall
  have hafter := @After.failed (Db 512) (Action 512) _ Nat twoConfig e { w with
    st := readState w header r
    intent := some ⟨some "a", 1 + 1, 14339146280585533889, 14030766692732936177⟩ }
  rw [← hcall] at hafter
  have hseq' : (readState w header r).currentSeq + 1 = 2 := by rw [readState_seq, hseq]
  have hlin' : (readState w header r).lineageId = some "a" := by rw [readState_lineage, hlin]
  refine ⟨added, _, existing, begun_added, ?_, .sync _ (hrun _ trivial) trivial hafter, ?_, ?_,
    fun calls => (hnext _).rejectsAll rfl⟩
  · rw [stateKey, hlin']
    exact added_live
  · rw [stateKey, hlin', hseq']
    exact h.stored
  · rw [readState_name, h.name, hlin', hseq']

end Sync
end Walrust
