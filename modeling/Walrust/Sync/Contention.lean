import Walrust.Sync.Recovery

/-!
# `Walrust.Sync.Contention` — owned writers that share a bucket

Two owned writers with one lineage and one base race for the same keys. Each has its own disk, so its own
publish intent, and the conditional put is all that orders them. A call is here a machine that moves by one
operation on the storage or the local disk at a time, so that the writers interleave at every such point; any
number of writers may take part.

* `Writer.Step` — one operation of one writer; a crash or an error at every point;
* `syncWal_steps`, `takeSnapshot_steps` — the calls of the engine are runs of the machine;
* `Writer.Honest` — the invariant, kept by a writer's own steps and by everybody else's;
* `no_silent_fork` — what every interleaving keeps.
-/

namespace Walrust
namespace Sync

open Wal Sqlite Lib List Function Relation

variable {E A : Type} [SqliteEnv E A] {o : Oracle A} {cfg : Config} {s : Storage}

/-! ## A writer, operation by operation -/

/-- Where a call stands, with what it holds in memory. -/
inductive Phase where
  /-- No call is running. -/
  | idle
  /-- The process is down. -/
  | down
  /-- A batch is encoded. -/
  | publish (d : Delta)
  /-- The prior intent is loaded. -/
  | intend (d : Delta) (prior : Option PublishIntent)
  /-- The intent is recorded; the conditional put is next. -/
  | put (d : Delta) (prior : Option PublishIntent)
  /-- The put was refused; what holds the key is to be read. -/
  | compare (d : Delta) (prior : Option PublishIntent)
  /-- Another object holds the key. -/
  | contest (d : Delta) (prior : Option PublishIntent)
  /-- The batch is stored. -/
  | stored (d : Delta)
  /-- A snapshot is to be taken. -/
  | snapshot
  | putSnapshot (p : PlannedSnapshot)
  | compareSnapshot (p : PlannedSnapshot)
  | settle (p : PlannedSnapshot)
  /-- `state.json` is to be written. -/
  | save

/-- An incremental by which a writer moved its cursor: the batch it had encoded, and on what base. -/
structure Passage where
  lineageId : Option String
  seq : Nat
  preChecksum : UInt64
  bytes : Bytes
  deriving DecidableEq, Repr

/-- One writer: its database, cursor, local disk and running call. The last two fields are history: the
    intents it ever recorded, and the incrementals it ever moved over. -/
structure Writer (E : Type) where
  db : E
  st : SyncState
  intent : Option PublishIntent
  phase : Phase
  recorded : List PublishIntent
  passed : List Passage

/-- What the writers share. -/
structure Storage where
  bucket : Bucket
  stateJson : Option SavedState

section Machine

variable {d : Delta}

/-- What a writer's call sees. -/
def Writer.world (x : Writer E) (s : Storage) : World E := ⟨x.db, s.bucket, s.stateJson, x.intent, x.st⟩

/-- The writer after a part of a call that leaves storage and disk alone. -/
def Writer.leave (x : Writer E) (w : World E) (phase : Phase) : Writer E :=
  { x with db := w.db, st := w.st, phase := phase }

def Writer.passage (x : Writer E) (d : Delta) : Passage := ⟨x.st.lineageId, d.seq, d.preChecksum, d.bytes⟩

def Writer.key (x : Writer E) (d : Delta) : Key := stateKey x.st .live d.seq

/-- The intent of a batch. -/
def Writer.intentFor (x : Writer E) (d : Delta) : PublishIntent :=
  ⟨x.st.lineageId, d.seq, d.preChecksum, d.postChecksum⟩

def Plan.phase : Plan → Phase
  | .nothing => .idle
  | .reanchor => .snapshot
  | .publish d => .publish d

/-- A call that stops returns to its caller, or dies. -/
def Stop.phase : Stop → Phase
  | .crash => .down
  | _ => .idle

/-- **One operation of one writer.** An error can be reported at every point (`fails`), also behind a write that
    took effect, and the process can die at every point (`crash`). -/
inductive Writer.Step (cfg : Config) : Writer E × Storage → Writer E × Storage → Prop where
  /-- Another connection acts on the writer's database. -/
  | env {x : Writer E} {s : Storage} {db : E} (a : A) (h : SqliteEnv.act x.db a = some db) :
      Step cfg (x, s) ({ x with db := db }, s)
  | crash {x : Writer E} {s : Storage} : Step cfg (x, s) ({ x with phase := .down }, s)
  | reopen {x : Writer E} {s : Storage} {w : World E} (down : List A) (blocker : A) (hphase : x.phase = .down)
      (h : addWithoutSnapshot cfg down blocker (x.world s) = .ok () w) : Step cfg (x, s) (x.leave w .idle, s)
  | fails {x : Writer E} {s : Storage} (hup : x.phase ≠ .down) : Step cfg (x, s) ({ x with phase := .idle }, s)
  /-- A sync reads the WAL and encodes what it finds. -/
  | sync {x : Writer E} {s : Storage} {w : World E} {plan : Plan} (o : Oracle A) (hphase : x.phase = .idle)
      (h : planSync cfg o (x.world s) = .ok plan w) : Step cfg (x, s) (x.leave w plan.phase, s)
  | syncStops {x : Writer E} {s : Storage} {w : World E} {e : Stop} (o : Oracle A) (hphase : x.phase = .idle)
      (h : planSync cfg o (x.world s) = .error e w) : Step cfg (x, s) (x.leave w e.phase, s)
  /-- A snapshot is asked for. -/
  | callSnapshot {x : Writer E} {s : Storage} (hphase : x.phase = .idle) :
      Step cfg (x, s) ({ x with phase := .snapshot }, s)
  | load {x : Writer E} {s : Storage} {d : Delta} (hphase : x.phase = .publish d) :
      Step cfg (x, s) ({ x with phase := .intend d x.intent }, s)
  /-- `sync_wal_with_retry` works without intents. -/
  | skip {x : Writer E} {s : Storage} {d : Delta} (hphase : x.phase = .publish d) :
      Step cfg (x, s) ({ x with phase := .put d none }, s)
  | record {x : Writer E} {s : Storage} {d : Delta} {prior : Option PublishIntent}
      (hphase : x.phase = .intend d prior) :
      Step cfg (x, s) ({ x with
        intent := some (x.intentFor d)
        phase := .put d prior
        recorded := x.intentFor d :: x.recorded }, s)
  /-- The conditional put finds the key free. -/
  | put {x : Writer E} {s : Storage} {d : Delta} {prior : Option PublishIntent} (hphase : x.phase = .put d prior)
      (hfree : s.bucket.get (x.key d) = none) :
      Step cfg (x, s) ({ x with phase := .stored d }, { s with bucket := s.bucket.put (x.key d) d.bytes })
  | refused {x : Writer E} {s : Storage} {d : Delta} {prior : Option PublishIntent}
      (hphase : x.phase = .put d prior) (htaken : s.bucket.get (x.key d) ≠ none) :
      Step cfg (x, s) ({ x with phase := .compare d prior }, s)
  | same {x : Writer E} {s : Storage} {d : Delta} {prior : Option PublishIntent}
      (hphase : x.phase = .compare d prior) (hget : s.bucket.get (x.key d) = some d.bytes) :
      Step cfg (x, s) ({ x with phase := .stored d }, s)
  | differs {x : Writer E} {s : Storage} {d : Delta} {prior : Option PublishIntent} {existing : Bytes}
      (hphase : x.phase = .compare d prior) (hget : s.bucket.get (x.key d) = some existing)
      (hne : existing ≠ d.bytes) : Step cfg (x, s) ({ x with phase := .contest d prior }, s)
  /-- The cursor moves over the batch. -/
  | advance {x : Writer E} {s : Storage} {d : Delta} (hphase : x.phase = .stored d) :
      Step cfg (x, s) ({ x with
        st := advanceCursor d x.st
        phase := .save
        passed := x.passed ++ [x.passage d] }, s)
  /-- The cursor moves over an object that is proved to be the writer's own. -/
  | adopt {x : Writer E} {s : Storage} {w : World E} {d : Delta} {prior : Option PublishIntent} {post : UInt64}
      (o : Oracle A) (hphase : x.phase = .contest d prior)
      (h : existingChangesetIsOurPublish cfg o (x.key d) d.seq d.preChecksum x.st.lineageId prior (x.world s) =
        .ok (some post) w) :
      Step cfg (x, s) ({ x with
        db := w.db
        st := { x.st with currentSeq := d.seq, currentTxid := d.maxTxid, dbChecksum := some post }
        phase := .snapshot
        passed := x.passed ++ [x.passage d] }, s)
  | plan {x : Writer E} {s : Storage} {w : World E} {p : PlannedSnapshot} (o : Oracle A)
      (hphase : x.phase = .snapshot) (h : planSnapshot cfg o (x.world s) = .ok p w) :
      Step cfg (x, s) (x.leave w (.putSnapshot p), s)
  | planStops {x : Writer E} {s : Storage} {w : World E} {e : Stop} (o : Oracle A) (hphase : x.phase = .snapshot)
      (h : planSnapshot cfg o (x.world s) = .error e w) : Step cfg (x, s) (x.leave w e.phase, s)
  | putSnapshot {x : Writer E} {s : Storage} {p : PlannedSnapshot} (hphase : x.phase = .putSnapshot p)
      (hfree : s.bucket.get p.key = none) :
      Step cfg (x, s) ({ x with phase := .settle p }, { s with bucket := s.bucket.put p.key p.bytes })
  | refusedSnapshot {x : Writer E} {s : Storage} {p : PlannedSnapshot} (hphase : x.phase = .putSnapshot p)
      (htaken : s.bucket.get p.key ≠ none) : Step cfg (x, s) ({ x with phase := .compareSnapshot p }, s)
  | sameSnapshot {x : Writer E} {s : Storage} {p : PlannedSnapshot} (hphase : x.phase = .compareSnapshot p)
      (hget : s.bucket.get p.key = some p.bytes) : Step cfg (x, s) ({ x with phase := .settle p }, s)
  | settle {x : Writer E} {s : Storage} {w : World E} {p : PlannedSnapshot} (o : Oracle A)
      (hphase : x.phase = .settle p) (h : settleSnapshot o p (x.world s) = .ok () w) :
      Step cfg (x, s) (x.leave w .save, s)
  | settleStops {x : Writer E} {s : Storage} {w : World E} {p : PlannedSnapshot} {e : Stop} (o : Oracle A)
      (hphase : x.phase = .settle p) (h : settleSnapshot o p (x.world s) = .error e w) :
      Step cfg (x, s) (x.leave w e.phase, s)
  | save {x : Writer E} {s : Storage} (hphase : x.phase = .save) :
      Step cfg (x, s) ({ x with phase := .idle }, { s with stateJson := some x.st.saved })

/-! ## The calls of the engine are runs of the machine -/

/-- What a writer shares or keeps on disk. -/
def World.kept (w : World E) : Bucket × Option SavedState × Option PublishIntent := (w.bucket, w.stateJson, w.intent)

/-- A program that leaves storage and disk alone. -/
def Local {α : Type} (p : Run E α) : Prop := ∀ v, Reads World.kept v p (fun _ => True) (fun _ => True)

theorem Keeps.local {α : Type} {p : Run E α} {φ : Face → α → Prop} (h : ∀ f, Keeps f p (φ f)) : Local p := by
  intro v
  have hp : Reads (fun w : World E => (w.held.bucket, w.held.stateJson, w.held.intent)) v p (fun _ => True)
      fun _ => True := .through (g := fun h : Held => (h.bucket, h.stateJson, h.intent)) fun u _ =>
    (h u.face u rfl).mono (fun _ _ => trivial) fun _ _ => trivial
  exact hp

theorem local_settleSnapshot (p : PlannedSnapshot) : Local (settleSnapshot o p : Run E Unit) :=
  fun v => .bind (φ := fun _ => True) (fun _ h => ⟨h, trivial⟩) fun _ _ =>
    Keeps.local (fun _ => keeps_resetWalCursorAfterSnapshot) v

section Simulation

variable (cfg : Config) (start : Writer E × Storage)

/-- Moving alone, the writer comes to `phase` with `w` for the world of its call. -/
def At (phase : Phase) (w : World E) : Prop :=
  ∃ x s, ReflTransGen (Writer.Step cfg) start (x, s) ∧ x.world s = w ∧ x.phase = phase

/-- Moving alone, the writer comes to where the call stops. -/
def StopsAt (e : Stop) (w : World E) : Prop := e ≠ .stuck → At cfg start e.phase w

variable {cfg start} {phase phase' : Phase} {w w' : World E} {st : SyncState}

theorem At.step (h : At cfg start phase w) (hstep : ∀ x s, x.world s = w → x.phase = phase →
      ∃ x' s', Writer.Step cfg (x, s) (x', s') ∧ x'.world s' = w' ∧ x'.phase = phase') :
    At cfg start phase' w' := by
  obtain ⟨x, s, hrun, hw, hphase⟩ := h
  obtain ⟨x', s', hlast, hw', hphase'⟩ := hstep x s hw hphase
  exact ⟨x', s', hrun.tail hlast, hw', hphase'⟩

section

variable (h : At cfg start phase w)
include h

theorem At.fails (hup : phase ≠ .down) : At cfg start .idle w :=
  h.step fun _ _ hw hphase => ⟨_, _, .fails (hphase ▸ hup), hw, rfl⟩

theorem At.crash : At cfg start .down w :=
  h.step fun _ _ hw _ => ⟨_, _, .crash, hw, rfl⟩

theorem At.stops (hup : phase ≠ .down) {e : Stop} : StopsAt cfg start e w := by
  intro _
  cases e with
  | err e => exact h.fails hup
  | crash => exact h.crash
  | stuck => contradiction

end

/-- Where the writer stands, and the cursor it has there. -/
def Stands (cfg : Config) (start : Writer E × Storage) (phase : Phase) (st : SyncState) (w : World E) : Prop :=
  At cfg start phase w ∧ w.st = st

theorem interfere_stands (hup : phase ≠ .down) (st : SyncState) (as : List A) :
    Triple (Stands cfg start phase st) (interfere as) (fun _ => Stands cfg start phase st)
      (StopsAt cfg start) := by
  induction as with
  | nil => exact fun w hw => hw
  | cons a as ih =>
    intro w hw
    simp only [interfere, bind_apply, get_apply]
    cases hact : SqliteEnv.act w.db a with
    | none => exact hw.1.stops hup
    | some db =>
      refine ih { w with db := db } ⟨hw.1.step ?_, hw.2⟩
      rintro x s rfl hphase
      exact ⟨_, _, .env a hact, rfl, hphase⟩

theorem perform_stands (hup : phase ≠ .down) {op : Op} :
    Triple (Stands cfg start phase st) (perform o op) (fun _ => Stands cfg start phase st)
      (StopsAt cfg start) := by
  refine (interfere_stands hup st _).bind fun _ => ?_
  cases o.fault op with
  | none => exact fun w hw => hw
  | fails | failsStored | crash => exact fun w hw => hw.1.stops hup

/-- A write is a step; an error behind it is one more. -/
theorem performWrite_at {M : World E → Prop} {R : Stop → World E → Prop} (hup : phase ≠ .down) {op : Op}
    {write : Run E Unit} (hwrite : Triple (Stands cfg start phase st) write (fun _ => M) R)
    (hM : ∀ e w, M w → StopsAt cfg start e w) (hR : ∀ e w, e.Plain → StopsAt cfg start e w → R e w) :
    Triple (Stands cfg start phase st) (performWrite o op write) (fun _ => M) R := by
  have hinterfere : Triple (Stands cfg start phase st) (interfere (o.env op))
      (fun _ => Stands cfg start phase st) R := by
    intro w hw
    have hplain := Keeps.reads (x := interfere (o.env op)) keeps_interfere w rfl
    have hat := interfere_stands hup st (o.env op) w hw
    cases hres : interfere (o.env op) w with
    | ok a v =>
      rw [hres] at hat
      exact hat
    | error e v =>
      rw [hres] at hat hplain
      exact hR e v hplain.2 hat
  refine hinterfere.bind fun _ => ?_
  cases o.fault op with
  | none => exact hwrite
  | fails => exact fun w hw => hR _ _ (Stop.plain_other _) (hw.1.stops hup)
  | failsStored => exact hwrite.bind fun _ w hw => hR _ _ (Stop.plain_other _) (hM _ w hw)
  | crash => exact fun w hw => hR _ _ Stop.plain_crash (hw.1.stops hup)

theorem Writer.leave_world {x : Writer E} {v : World E} (h : v.kept = (x.world s).kept)
    {phase : Phase} : (x.leave v phase).world s = v := by
  obtain ⟨db, bucket, stateJson, intent, st⟩ := v
  obtain ⟨rfl, rfl, rfl⟩ := h
  rfl

/-- A part of a call that leaves storage and disk alone is one step. -/
theorem local_at {α : Type} {p : Run E α} (hlocal : Local p) {next : α → Phase}
    (hok : ∀ {x : Writer E} {s : Storage} {a : α} {v : World E}, x.phase = phase → p (x.world s) = .ok a v →
      Writer.Step cfg (x, s) (x.leave v (next a), s))
    (herror : ∀ {x : Writer E} {s : Storage} {e : Stop} {v : World E}, x.phase = phase →
      p (x.world s) = .error e v → Writer.Step cfg (x, s) (x.leave v e.phase, s)) :
    Triple (At cfg start phase) p (fun a => At cfg start (next a)) (StopsAt cfg start) := by
  rintro w ⟨x, s, hrun, rfl, hphase⟩
  have hkept := hlocal (x.world s).kept (x.world s) rfl
  cases hp : p (x.world s) with
  | ok a v =>
    rw [hp] at hkept
    exact ⟨_, _, hrun.tail (hok hphase hp), Writer.leave_world hkept.1, rfl⟩
  | error e v =>
    rw [hp] at hkept
    exact fun _ => ⟨_, _, hrun.tail (herror hphase hp), Writer.leave_world hkept.1, rfl⟩

theorem saveState_at : Triple (At cfg start .save) (saveState o) (fun _ => At cfg start .idle)
    (StopsAt cfg start) := by
  intro v hv
  refine performWrite_at (by simp) ?_ (fun e w hw => .stops hw (by simp)) (fun _ _ _ h => h) v ⟨hv, rfl⟩
  rintro w ⟨hw, -⟩
  refine hw.step ?_
  rintro x s rfl hphase
  exact ⟨_, _, .save hphase, rfl, rfl⟩

/-- The conditional put of a snapshot: one step, or two if the key is taken. -/
theorem putSnapshot_at {p : PlannedSnapshot} : Triple (At cfg start (.putSnapshot p))
    (putChangesetIfAbsent cfg o .putSnapshot p.key p.bytes p.name p.seq "walrust-owned snapshot")
    (fun _ => At cfg start (.settle p)) (StopsAt cfg start) := by
  intro v hv
  refine performWrite_at (by simp) ?_ (fun e w hw => .stops hw (by simp)) (fun _ _ _ h => h) v ⟨hv, rfl⟩
  rintro w ⟨⟨x, s, hrun, rfl, hphase⟩, -⟩
  split
  · rename_i a v hok
    rcases putAbsent_ok.mp hok with ⟨hfree, rfl⟩ | ⟨hsame, rfl⟩
    · exact ⟨_, _, hrun.tail (.putSnapshot hphase hfree), rfl, rfl⟩
    · have htaken : s.bucket.get p.key ≠ none := fun h => nomatch h.symm.trans hsame
      exact ⟨_, _, (hrun.tail (.refusedSnapshot hphase htaken)).tail (.sameSnapshot rfl hsame), rfl, rfl⟩
  · rename_i e v herr
    obtain ⟨rfl, rfl, -⟩ := putAbsent_error herr
    exact .stops ⟨x, s, hrun, rfl, hphase⟩ (by simp)

/-- **A snapshot is a run of the machine.** -/
theorem takeSnapshot_at : Triple (At cfg start .snapshot) (takeSnapshot cfg o) (fun _ => At cfg start .save)
    (StopsAt cfg start) := by
  rw [takeSnapshot_plan]
  refine (local_at (Keeps.local fun _ => keeps_planSnapshot) (.plan o) (.planStops o)).bind fun p => ?_
  exact putSnapshot_at.bind fun _ => local_at (local_settleSnapshot p) (.settle o) (.settleStops o)

/-- The conditional put of a batch: stored, the same bytes found, or another object met. -/
theorem putDelta_at {prior : Option PublishIntent} :
    Triple (Stands cfg start (.put d prior) st)
      (putChangesetIfAbsent cfg o .putDelta (stateKey st .live d.seq) d.bytes st.name d.seq "walrust-owned")
      (fun _ => At cfg start (.stored d))
      fun e w => (e.Plain ∧ StopsAt cfg start e w) ∨
        ∃ msg, e = .err (.equivocation msg) ∧ Stands cfg start (.contest d prior) st w := by
  refine performWrite_at (by simp) ?_ (fun e w hw => .stops hw (by simp)) fun e w he h => .inl ⟨he, h⟩
  rintro w ⟨⟨x, s, hrun, rfl, hphase⟩, rfl⟩
  split
  · rename_i a v hok
    rcases putAbsent_ok.mp hok with ⟨hfree, rfl⟩ | ⟨hsame, rfl⟩
    · exact ⟨_, _, hrun.tail (.put hphase hfree), rfl, rfl⟩
    · have htaken : s.bucket.get (x.key d) ≠ none := fun h => nomatch h.symm.trans hsame
      exact ⟨_, _, (hrun.tail (.refused hphase htaken)).tail (.same rfl hsame), rfl, rfl⟩
  · rename_i e v herr
    obtain ⟨rfl, rfl, existing, hget, hne⟩ := putAbsent_error herr
    have htaken : s.bucket.get (x.key d) ≠ none := fun h => nomatch h.symm.trans hget
    exact .inr ⟨_, rfl, ⟨_, _, (hrun.tail (.refused hphase htaken)).tail (.differs rfl hget hne), rfl, rfl⟩, rfl⟩

theorem existing_stands (hup : phase ≠ .down) (st : SyncState) (key : Key) (seq : Nat) (pre : UInt64)
    (lineage : Option String) (prior : Option PublishIntent) :
    Triple (Stands cfg start phase st) (existingChangesetIsOurPublish cfg o key seq pre lineage prior)
      (fun _ => Stands cfg start phase st) (StopsAt cfg start) := by
  cases prior with
  | none => exact fun w hw => hw
  | some intent =>
    unfold existingChangesetIsOurPublish
    dsimp only
    split
    · exact fun w hw => hw
    · refine (perform_stands hup).bind fun _ => ?_
      refine .bind (M := fun _ => Stands cfg start phase st) (fun w hw => hw) fun w => ?_
      split
      · exact fun w hw => hw
      split
      · exact fun w hw => hw
      split <;> exact fun w hw => hw

/-- The recovery of an earlier publish, or its refusal. -/
theorem contest_at {prior : Option PublishIntent} {msg : String} :
    Triple (Stands cfg start (.contest d prior) st)
      (do
        match ← existingChangesetIsOurPublish cfg o (stateKey st .live d.seq) d.seq d.preChecksum st.lineageId
          prior with
        | some adoptedPost => adoptPublish cfg o d adoptedPost
        | none => throw (.err (.equivocation msg)))
      (fun _ => At cfg start .idle) (StopsAt cfg start) := by
  intro w hw
  have hstands := existing_stands (o := o) (by simp) st (stateKey st .live d.seq) d.seq d.preChecksum st.lineageId
    prior w hw
  obtain ⟨⟨x, s, hrun, rfl, hphase⟩, rfl⟩ := hw
  simp only [bind_apply]
  cases hours : existingChangesetIsOurPublish cfg o (stateKey (x.world s).st .live d.seq) d.seq d.preChecksum
      (x.world s).st.lineageId prior (x.world s) with
  | error e v =>
    rw [hours] at hstands
    exact hstands
  | ok r v =>
    rw [hours] at hstands
    cases r with
    | none => exact hstands.1.stops (by simp)
    | some post =>
      -- one step to behind the adoption
      have hadopted : At cfg start .snapshot
          { v with st := { v.st with currentSeq := d.seq, currentTxid := d.maxTxid, dbChecksum := some post } } := by
        refine ⟨_, _, hrun.tail (.adopt o hphase hours), ?_, rfl⟩
        have hkept := Triple.of_ok (keeps_existingChangesetIsOurPublish cfg o (x.world s).face d.seq d.preChecksum
          prior (x.world s).held rfl) (s := x.world s) rfl hours
        obtain ⟨db, bucket, stateJson, intent, st'⟩ := v
        obtain ⟨-, -, rfl, rfl, rfl⟩ := Held.mk.inj hkept.1
        obtain ⟨-, rfl⟩ := hstands
        rfl
      exact (takeSnapshot_at.bind fun _ => saveState_at.bind fun _ w hw => hw) _ hadopted

/-- **A publish is a run of the machine.** -/
theorem publishOwned_at (d : Delta) : Triple (At cfg start (.publish d)) (publishOwned cfg o d)
    (fun _ => At cfg start .idle) (StopsAt cfg start) := by
  refine .bind (M := fun st => Stands cfg start (.publish d) st) (fun w hw => ⟨hw, rfl⟩) fun st => ?_
  refine .bind (M := fun prior => Stands cfg start (.intend d prior) st) ?_ fun prior => ?_
  · refine (perform_stands (by simp)).bind fun _ => ?_
    rintro w ⟨hw, hst⟩
    refine ⟨hw.step ?_, hst⟩
    rintro x s rfl hphase
    exact ⟨_, _, .load hphase, rfl, rfl⟩
  refine .bind (M := fun _ => Stands cfg start (.put d prior) st) ?_ fun _ => ?_
  · refine performWrite_at (by simp) ?_ (fun e w hw => hw.1.stops (by simp)) fun _ _ _ h => h
    rintro w ⟨hw, hst⟩
    refine ⟨hw.step ?_, hst⟩
    rintro x s rfl hphase
    exact ⟨_, _, .record hphase, rfl, rfl⟩
  refine onConflict_triple putDelta_at ?_ (fun msg => ?_) fun e w he h => ?_
  · refine .bind (M := fun _ => At cfg start .save) ?_ fun _ => ?_
    · intro w hw
      refine hw.step ?_
      rintro x s rfl hphase
      exact ⟨_, _, .advance hphase, rfl, rfl⟩
    · exact saveState_at.bind fun _ w hw => hw
  · refine contest_at.consequence ?_ (fun _ _ h => h) fun _ _ h => h
    rintro w (⟨he, -⟩ | ⟨_, -, h⟩)
    · exact absurd rfl (he msg)
    · exact h
  · rcases h with h | ⟨msg, rfl, -⟩
    · exact h.2
    · exact absurd rfl (he msg)

/-- The rest of a call that has planned: a snapshot and `state.json`, or the publish. -/
theorem followPlan_at {publish : Delta → Run E Nat}
    (hpublish : ∀ d, Triple (At cfg start (.publish d)) (publish d) (fun _ => At cfg start .idle)
      (StopsAt cfg start)) (plan : Plan) :
    Triple (At cfg start plan.phase) (followPlan cfg o publish plan) (fun _ => At cfg start .idle)
      (StopsAt cfg start) := by
  cases plan with
  | nothing => exact fun w hw => hw
  | reanchor => exact takeSnapshot_at.bind fun _ => saveState_at.bind fun _ w hw => hw
  | publish d => exact hpublish d

/-- **An owned sync is a run of the machine**, under every placement of faults and interference: it comes to
    rest where the call returns or fails, or goes down where it crashes. -/
theorem syncWal_steps : Triple (At cfg start .idle) (syncWal cfg o) (fun _ => At cfg start .idle)
    (StopsAt cfg start) := by
  rw [syncWal_plan]
  exact (local_at (Keeps.local fun _ => keeps_planSync) (.sync o) (.syncStops o)).bind (followPlan_at publishOwned_at)

/-- The publish of `sync_wal_with_retry` records no intent, and a conflict ends it. -/
theorem publishRetry_at (d : Delta) : Triple (At cfg start (.publish d)) (publishRetry cfg o d)
    (fun _ => At cfg start .idle) (StopsAt cfg start) := by
  refine .bind (M := fun st => Stands cfg start (.put d none) st) ?_ fun st => ?_
  · intro w hw
    refine ⟨hw.step ?_, rfl⟩
    rintro x s rfl hphase
    exact ⟨_, _, .skip hphase, rfl, rfl⟩
  refine .bind (M := fun _ => At cfg start (.stored d)) ?_ fun _ => ?_
  · refine putDelta_at.post (fun _ _ h => h) ?_
    rintro e w (⟨-, h⟩ | ⟨msg, rfl, h⟩)
    · exact h
    · exact h.1.stops (by simp)
  refine .bind (M := fun _ => At cfg start .save) ?_ fun _ => saveState_at.bind fun _ w hw => hw
  intro w hw
  refine hw.step ?_
  rintro x s rfl hphase
  exact ⟨_, _, .advance hphase, rfl, rfl⟩

theorem syncWalWithRetry_steps : Triple (At cfg start .idle) (syncWalWithRetry cfg o)
    (fun _ => At cfg start .idle) (StopsAt cfg start) := by
  rw [syncWalWithRetry_plan]
  exact (local_at (Keeps.local fun _ => keeps_planSync) (.sync o) (.syncStops o)).bind (followPlan_at publishRetry_at)

/-- **A snapshot is a run of the machine**; the caller saves the state behind it, or not. -/
theorem takeSnapshot_steps : Triple (At cfg start .idle) (takeSnapshot cfg o)
    (fun _ w => At cfg start .save w ∧ At cfg start .idle w) (StopsAt cfg start) := by
  refine takeSnapshot_at.consequence (fun w hw => hw.step fun x s h hidle => ?_)
    (fun _ _ hw => ⟨hw, hw.fails (by simp)⟩) fun _ _ h => h
  exact ⟨_, _, .callSnapshot hidle, h, rfl⟩

end Simulation

/-! ## What one writer keeps -/

/-- The prior intent a call works with. -/
def Phase.prior : Phase → Option PublishIntent
  | .intend _ prior | .put _ prior | .compare _ prior | .contest _ prior => prior
  | _ => none

/-- The object at the place of a passage is the batch the writer encoded, or decodes to the checksum of an intent
    that the writer recorded for that lineage, seq and base. -/
def Vouched (cfg : Config) (recorded : List PublishIntent) (p : Passage) (object : Bytes) : Prop :=
  object = p.bytes ∨ ∃ post, ⟨p.lineageId, p.seq, p.preChecksum, post⟩ ∈ recorded ∧
    Authored cfg p.seq p.preChecksum post object

/-- Nothing is replaced and nothing is deleted. -/
def Grows (b b' : Bucket) : Prop := ∀ k bytes, b.get k = some bytes → b'.get k = some bytes

theorem Grows.refl (b : Bucket) : Grows b b := fun _ _ h => h

theorem Grows.trans {b₁ b₂ b₃ : Bucket} (h : Grows b₁ b₂) (h' : Grows b₂ b₃) : Grows b₁ b₃ :=
  fun k bytes hk => h' k bytes (h k bytes hk)

theorem grows_put {b : Bucket} {k : Key} (hfree : b.get k = none) (bytes : Bytes) : Grows b (b.put k bytes) := by
  intro j old hj
  rw [Store.get_put_of_ne, hj]
  rintro rfl
  rw [hfree] at hj
  cases hj

/-- **The invariant of one writer.** -/
structure Writer.Honest (cfg : Config) (x : Writer E) (b : Bucket) : Prop where
  intent : ∀ i, x.intent = some i → i ∈ x.recorded
  prior : ∀ i, x.phase.prior = some i → i ∈ x.recorded
  stored : ∀ d, x.phase = .stored d → b.get (x.key d) = some d.bytes
  passed : ∀ p ∈ x.passed, ∃ object, b.get (.changeset p.lineageId .live p.seq) = some object ∧
    Vouched cfg x.recorded p object

variable {x x' : Writer E} {s' : Storage} {b b' : Bucket}

theorem Writer.Honest.grows (h : x.Honest cfg b) (hb : Grows b b') : x.Honest cfg b' := by
  refine ⟨h.intent, h.prior, fun d hd => hb _ _ (h.stored d hd), fun p hp => ?_⟩
  obtain ⟨object, hget, hvouched⟩ := h.passed p hp
  exact ⟨object, hb _ _ hget, hvouched⟩

/-- A move to a phase that holds no intent and no stored batch. -/
theorem Writer.Honest.move (h : x.Honest cfg b) (hintent : x'.intent = x.intent)
    (hrecorded : x'.recorded = x.recorded)
    (hpassed : ∀ p ∈ x'.passed, p ∈ x.passed ∨ ∃ object, b.get (.changeset p.lineageId .live p.seq) = some object ∧
      Vouched cfg x.recorded p object)
    (hprior : x'.phase.prior = none) (hstored : ∀ d, x'.phase ≠ .stored d) : x'.Honest cfg b := by
  refine ⟨?_, fun i hi => ?_, fun d hd => absurd hd (hstored d), fun p hp => ?_⟩
  · rw [hintent, hrecorded]
    exact h.intent
  · rw [hprior] at hi
    cases hi
  · rw [hrecorded]
    exact (hpassed p hp).elim (h.passed p) id

/-- A passage over an object that is vouched for. -/
theorem Writer.Honest.pass (h : x.Honest cfg b) {object : Bytes} (hget : b.get (x.key d) = some object)
    (hvouched : Vouched cfg x.recorded (x.passage d) object) (hintent : x'.intent = x.intent)
    (hrecorded : x'.recorded = x.recorded) (hpassed : x'.passed = x.passed ++ [x.passage d])
    (hprior : x'.phase.prior = none) (hstored : ∀ d, x'.phase ≠ .stored d) : x'.Honest cfg b := by
  refine h.move hintent hrecorded (fun p hp => ?_) hprior hstored
  rw [hpassed] at hp
  rcases mem_append.mp hp with hp | hp
  · exact .inl hp
  · obtain rfl := mem_singleton.mp hp
    exact .inr ⟨object, hget, hvouched⟩

/-- An adopted object is the writer's own. -/
theorem Writer.Honest.vouches (h : x.Honest cfg s.bucket) {prior : Option PublishIntent} {post : UInt64}
    {w : World E} (hphase : x.phase = .contest d prior)
    (hours : existingChangesetIsOurPublish cfg o (x.key d) d.seq d.preChecksum x.st.lineageId prior (x.world s) =
      .ok (some post) w) :
    ∃ object, s.bucket.get (x.key d) = some object ∧ Vouched cfg x.recorded (x.passage d) object := by
  have hkeeps := Triple.of_ok (keeps_existingChangesetIsOurPublish cfg o (x.world s).face d.seq d.preChecksum
    prior).reads (s := x.world s) rfl hours
  obtain ⟨-, object, hget, hintent, hauthored⟩ := hkeeps
  refine ⟨object, hget, .inr ⟨post, h.prior _ ?_, hauthored⟩⟩
  rw [hphase]
  exact hintent

theorem Plan.phase_prior (plan : Plan) : plan.phase.prior = none ∧ ∀ d, plan.phase ≠ .stored d := by
  cases plan <;> exact ⟨rfl, fun _ h => nomatch h⟩

theorem Stop.phase_prior (e : Stop) : e.phase.prior = none ∧ ∀ d, e.phase ≠ .stored d := by
  cases e <;> exact ⟨rfl, fun _ h => nomatch h⟩

/-- **No operation replaces an object.** -/
theorem Writer.Step.grows (h : Writer.Step cfg (x, s) (x', s')) : Grows s.bucket s'.bucket := by
  cases h with
  | put _ hfree => exact grows_put hfree _
  | putSnapshot _ hfree => exact grows_put hfree _
  | _ => exact .refl _

/-- **Every operation of a writer keeps its invariant.** -/
theorem Writer.Step.honest (h : Writer.Step cfg (x, s) (x', s')) (hx : x.Honest cfg s.bucket) :
    x'.Honest cfg s'.bucket := by
  cases h with
  | env a hact => exact ⟨hx.intent, hx.prior, hx.stored, hx.passed⟩
  | @sync _ _ _ plan o hphase hplan => exact hx.move rfl rfl (fun _ hp => .inl hp) plan.phase_prior.1 plan.phase_prior.2
  | @syncStops _ _ _ e o hphase hplan => exact hx.move rfl rfl (fun _ hp => .inl hp) e.phase_prior.1 e.phase_prior.2
  | load hphase => exact ⟨hx.intent, hx.intent, (fun _ h => nomatch h), hx.passed⟩
  | record hphase =>
    -- the intent now on disk is recorded, and the prior one was
    refine ⟨?_, fun i hi => mem_cons_of_mem _ (hx.prior i (by rw [hphase]; exact hi)), (fun _ h => nomatch h), ?_⟩
    · rintro i ⟨⟩
      exact mem_cons_self
    · intro p hp
      obtain ⟨object, hget, hsame | ⟨post, hmem, hauthored⟩⟩ := hx.passed p hp
      · exact ⟨object, hget, .inl hsame⟩
      · exact ⟨object, hget, .inr ⟨post, mem_cons_of_mem _ hmem, hauthored⟩⟩
  | @put _ _ d _ hphase hfree =>
    have hgrown := hx.grows (grows_put hfree d.bytes)
    refine ⟨hgrown.intent, (fun _ h => nomatch h), ?_, hgrown.passed⟩
    rintro d ⟨⟩
    exact Store.get_put_self _ _ _
  | refused hphase htaken =>
    exact ⟨hx.intent, fun i hi => hx.prior i (by rw [hphase]; exact hi), (fun _ h => nomatch h), hx.passed⟩
  | same hphase hget =>
    refine ⟨hx.intent, (fun _ h => nomatch h), ?_, hx.passed⟩
    rintro d ⟨⟩
    exact hget
  | differs hphase hget hne =>
    exact ⟨hx.intent, fun i hi => hx.prior i (by rw [hphase]; exact hi), (fun _ h => nomatch h), hx.passed⟩
  | advance hphase =>
    exact hx.pass (hx.stored _ hphase) (.inl rfl) rfl rfl rfl rfl fun _ h => nomatch h
  | adopt o hphase hours =>
    obtain ⟨object, hget, hvouched⟩ := hx.vouches hphase hours
    exact hx.pass hget hvouched rfl rfl rfl rfl (fun _ h => nomatch h)
  | @planStops _ _ _ e o hphase hplan => exact hx.move rfl rfl (fun _ hp => .inl hp) e.phase_prior.1 e.phase_prior.2
  | putSnapshot hphase hfree =>
    exact (hx.grows (grows_put hfree _)).move rfl rfl (fun _ hp => .inl hp) rfl (fun _ h => nomatch h)
  | @settleStops _ _ _ _ e o hphase hsettle => exact hx.move rfl rfl (fun _ hp => .inl hp) e.phase_prior.1 e.phase_prior.2
  -- every other operation comes to a phase that holds nothing
  | _ => exact hx.move rfl rfl (fun _ hp => .inl hp) rfl (fun _ h => nomatch h)

end Machine

/-! ## Writers that share a bucket -/

section System

variable {ι : Type} [DecidableEq ι]

/-- Any number of writers over one storage. -/
structure System (ι E : Type) where
  writers : ι → Writer E
  storage : Storage

/-- One of them moves. -/
inductive System.Step (cfg : Config) : System ι E → System ι E → Prop where
  | move {sys : System ι E} {x : Writer E} {s : Storage} (i : ι)
      (h : Writer.Step cfg (sys.writers i, sys.storage) (x, s)) :
      Step cfg sys ⟨update sys.writers i x, s⟩

abbrev System.Runs (cfg : Config) : System ι E → System ι E → Prop := ReflTransGen (System.Step cfg)

variable {sys sys₀ : System ι E}

theorem System.Runs.grows (h : System.Runs cfg sys₀ sys) : Grows sys₀.storage.bucket sys.storage.bucket := by
  induction h with
  | refl => exact .refl _
  | tail _ hstep ih =>
    cases hstep with
    | move i h => exact ih.trans h.grows

/-- **The invariants of all writers hold along every interleaving.** -/
theorem System.Runs.honest (h : System.Runs cfg sys₀ sys)
    (h₀ : ∀ i, (sys₀.writers i).Honest cfg sys₀.storage.bucket) (i : ι) :
    (sys.writers i).Honest cfg sys.storage.bucket := by
  induction h with
  | refl => exact h₀ i
  | tail _ hstep ih =>
    cases hstep with
    | @move x s j h =>
      by_cases hij : i = j
      · subst hij
        simp only [update_self]
        exact h.honest ih
      · -- another writer moved
        simp only [update_of_ne hij]
        exact ih.grows h.grows

/-- A writer that was just opened: no call is running, and the history begins with the intent on its disk. -/
structure Writer.AtRest (x : Writer E) : Prop where
  phase : x.phase = .idle ∨ x.phase = .down
  recorded : x.recorded = x.intent.toList
  passed : x.passed = []

theorem Writer.AtRest.honest {x : Writer E} (h : x.AtRest) (cfg : Config) (b : Bucket) : x.Honest cfg b := by
  refine ⟨fun i hi => ?_, fun i hi => ?_, fun d hd => ?_, fun p hp => ?_⟩
  · rw [h.recorded, hi]
    exact mem_singleton.mpr rfl
  · rcases h.phase with hp | hp <;> rw [hp] at hi <;> cases hi
  · rcases h.phase with hp | hp <;> rw [hp] at hd <;> cases hd
  · rw [h.passed] at hp
    cases hp

/-- A writer that opens in `w`. -/
def Writer.opened (w : World E) : Writer E := ⟨w.db, w.st, w.intent, .idle, w.intent.toList, []⟩

/-- **Writers never silently fork a seq.** In every interleaving of any number of owned writers, with crashes,
    reopens and failing operations at every point: an object once stored is there for ever, with the same bytes;
    and at every incremental a writer moved its cursor over, the bucket has the very bytes it encoded, or an object
    that decodes to the checksum it had recorded in a publish intent for that lineage, seq and base. -/
theorem no_silent_fork (cfg : Config) {sys₀ sys₁ sys : System ι E}
    (h₀ : ∀ i, (sys₀.writers i).AtRest) (hrun : System.Runs cfg sys₀ sys₁) (hrun' : System.Runs cfg sys₁ sys) :
    (∀ lineage generation seq bytes,
      sys₁.storage.bucket.get (.changeset lineage generation seq) = some bytes →
        sys.storage.bucket.get (.changeset lineage generation seq) = some bytes) ∧
    ∀ i, ∀ p ∈ (sys.writers i).passed, ∃ object,
      sys.storage.bucket.get (.changeset p.lineageId .live p.seq) = some object ∧
        Vouched cfg (sys.writers i).recorded p object := by
  refine ⟨fun lineage generation seq bytes h => hrun'.grows _ _ h, fun i p hp => ?_⟩
  exact (System.Runs.honest (hrun.trans hrun') (fun j => (h₀ j).honest cfg _) i).passed p hp

/-! ### Two writers of the growing database -/

/-- A writer that moves alone is a run of the system. -/
theorem System.runs_of_alone (i : ι) {x : Writer E}
    (h : ReflTransGen (Writer.Step cfg) (sys.writers i, sys.storage) (x, s)) :
    System.Runs cfg sys ⟨update sys.writers i x, s⟩ := by
  obtain ⟨p, hp⟩ : ∃ p, p = (x, s) := ⟨_, rfl⟩
  rw [← hp] at h
  have hrun : System.Runs cfg sys ⟨update sys.writers i p.1, p.2⟩ := by
    clear hp
    induction h with
    | refl => rw [update_eq_self]
    | @tail q r _ hstep ih =>
      have hmove := @System.Step.move _ _ _ _ _ cfg ⟨update sys.writers i q.1, q.2⟩ r.1 r.2 i (by
        simp only [update_self]
        exact hstep)
      simp only [update_idem] at hmove
      exact ih.tail hmove
  rw [hp] at hrun
  exact hrun

variable {x : Writer E} {header : WalHeader} {r : PageMapRead} {bytes : Bytes} {post : UInt64}

theorem Ready.planSync {w : World E} (h : Ready cfg o w header r bytes post) (ho : o.QuietRead) :
    Sync.planSync cfg o w =
      .ok (.publish (deltaOf cfg w header r bytes post)) (w.read header r) := by
  rw [planSync_site, h.site ho]
  rfl

/-- A writer with a batch records its intent and comes to its put. -/
theorem Ready.comes_to_put (h : Ready cfg o (x.world s) header r bytes post) (ho : o.QuietRead)
    (hidle : x.phase = .idle) :
    ∃ x' : Writer E, ReflTransGen (Writer.Step cfg) (x, s) (x', s) ∧
      x'.phase = .put (deltaOf cfg (x.world s) header r bytes post) x.intent ∧
      x'.st = readState (x.world s) header r ∧ x'.passed = x.passed := by
  have hsync := Writer.Step.sync o hidle (h.planSync ho)
  obtain ⟨x₁, hx₁⟩ : ∃ x₁, x₁ = x.leave { x.world s with st := readState (x.world s) header r }
    (Plan.publish (deltaOf cfg (x.world s) header r bytes post)).phase := ⟨_, rfl⟩
  have hphase : x₁.phase = .publish (deltaOf cfg (x.world s) header r bytes post) := by
    rw [hx₁]
    rfl
  rw [← hx₁] at hsync
  refine ⟨_, ((ReflTransGen.single hsync).tail (.load hphase)).tail (.record rfl), ?_, ?_, ?_⟩
  all_goals
    rw [hx₁]
    rfl

/-- If the key is free, it stores the batch and moves over it. -/
theorem Ready.moves_over (h : Ready cfg o (x.world s) header r bytes post) (ho : o.QuietRead)
    (hidle : x.phase = .idle) (hfree : s.bucket.get (stateKey x.st .live (x.st.currentSeq + 1)) = none) :
    ∃ (x' : Writer E) (s' : Storage), ReflTransGen (Writer.Step cfg) (x, s) (x', s') ∧
      s'.bucket = s.bucket.put (stateKey x.st .live (x.st.currentSeq + 1)) bytes ∧
      x'.passed = x.passed ++ [⟨x.st.lineageId, x.st.currentSeq + 1, preOf cfg (x.world s), bytes⟩] := by
  obtain ⟨x₁, hrun, hphase, hst, hpassed⟩ := h.comes_to_put ho hidle
  have hlin : x₁.st.lineageId = x.st.lineageId := by
    rw [hst]
    exact readState_lineage _ _ _
  have hkey : x₁.key (deltaOf cfg (x.world s) header r bytes post) =
      stateKey x.st .live (x.st.currentSeq + 1) := by
    simp only [Writer.key, stateKey, hlin]
    rfl
  have hput : Writer.Step cfg _ _ := Writer.Step.put hphase (by rw [hkey]; exact hfree)
  refine ⟨_, _, (hrun.tail hput).tail (.advance rfl), ?_, ?_⟩
  · rw [hkey]
    rfl
  · rw [hpassed, Writer.passage, hlin]
    rfl

end System

/-- Two writers of the growing database, each with its own second page: the first stores its batch at seq 2, the
    second comes to its put and is refused, and the object is the first one's. -/
theorem no_silent_fork_growing : ∃ (cfg : Config) (sys₀ sys₁ sys : System Bool (Db 512)) (p : Passage)
    (prior : Option PublishIntent) (d : Delta),
    (∀ i, (sys₀.writers i).AtRest) ∧ System.Runs cfg sys₀ sys₁ ∧ System.Runs cfg sys₁ sys ∧
      (sys.writers true).passed = [p] ∧ p.seq = 2 ∧ (sys.writers false).phase = .compare d prior ∧ d.seq = 2 ∧
      ∃ object, sys.storage.bucket.get (.changeset p.lineageId .live p.seq) = some object ∧
        Vouched cfg (sys.writers true).recorded p object := by
  obtain ⟨w, -, hwal₁, hrestart₁, himage₁, hseq, hlin, hsalt, hoffset, -, hfree⟩ := snapshot_onePage growConfig
  have hbatch : ∀ v : UInt8, ∃ db : Db 512, ∀ s : Storage, ∃ (header : WalHeader) (r : PageMapRead) (bytes : Bytes)
      (post : UInt64), Ready growConfig calmCall
        ((Writer.opened { w with db := db }).world s) header r bytes post := by
    intro v
    obtain ⟨db, -, hwal, -, -⟩ := act_writeTwo hwal₁ hrestart₁ (by omega) v
    refine ⟨db, fun s => ?_⟩
    obtain ⟨r, bytes, post, hready, -⟩ := ready_fromStart growConfig
      calmCall (w := (Writer.opened { w with db := db }).world s) hwal hsalt
      hoffset rfl (by simp [writeTwo])
    exact ⟨_, r, bytes, post, hready⟩
  obtain ⟨dbA, hA⟩ := hbatch 7
  obtain ⟨dbB, hB⟩ := hbatch 8
  have hkey : stateKey w.st .live (w.st.currentSeq + 1) = .changeset none .live 2 := by
    rw [stateKey, hlin, hseq]
  -- the first writer publishes
  obtain ⟨header, r, bytes, post, hready⟩ := hA ⟨w.bucket, w.stateJson⟩
  obtain ⟨xA, s₁, hrunA, hbucket, hpassed⟩ := hready.moves_over (quietRead_quiet _ _) rfl
    (hkey ▸ hfree 2 (by decide) .live)
  -- the second comes to its put
  obtain ⟨header', r', bytes', post', hready'⟩ := hB s₁
  obtain ⟨xB, hrunB, hphase, hst, -⟩ := hready'.comes_to_put (quietRead_quiet _ _) rfl
  obtain ⟨d, hd⟩ : ∃ d, d = deltaOf growConfig ((Writer.opened { w with db := dbB }).world s₁) header' r' bytes'
    post' := ⟨_, rfl⟩
  rw [← hd] at hphase
  have hseqd : d.seq = w.st.currentSeq + 1 := by
    rw [hd]
    rfl
  have htaken : s₁.bucket.get (xB.key d) ≠ none := by
    have hkeyB : xB.key d = stateKey w.st .live (w.st.currentSeq + 1) := by
      rw [Writer.key, stateKey, hst, readState_lineage, hseqd]
      rfl
    rw [hkeyB, hbucket]
    exact ne_of_eq_of_ne (Store.get_put_self _ _ _) (Option.some_ne_none _)
  obtain ⟨xC, hphaseC, hrunC⟩ : ∃ xC : Writer (Db 512), xC.phase = .compare d w.intent ∧
      ReflTransGen (Writer.Step growConfig) (.opened { w with db := dbB }, s₁) (xC, s₁) :=
    ⟨_, rfl, hrunB.tail (.refused hphase htaken)⟩
  obtain ⟨writers, hwriters⟩ : ∃ writers : Bool → Writer (Db 512),
    writers = fun i => .opened { w with db := if i then dbA else dbB } := ⟨_, rfl⟩
  have hrun₁ : System.Runs growConfig ⟨writers, ⟨w.bucket, w.stateJson⟩⟩ ⟨update writers true xA, s₁⟩ :=
    System.runs_of_alone true (by rw [hwriters]; exact hrunA)
  have hrun₂ : System.Runs growConfig ⟨update writers true xA, s₁⟩
      ⟨update (update writers true xA) false xC, s₁⟩ :=
    System.runs_of_alone false (by rw [hwriters]; exact hrunC)
  have hrest : ∀ i, (writers i).AtRest := fun i => by
    rw [hwriters]
    exact ⟨.inl rfl, rfl, rfl⟩
  refine ⟨growConfig, _, _, _, _, _, _, hrest, hrun₁, hrun₂, hpassed, congrArg Nat.succ hseq, hphaseC,
    hseqd.trans (congrArg Nat.succ hseq), ?_⟩
  exact (no_silent_fork growConfig hrest hrun₁ hrun₂).2 true _ (by
    show _ ∈ xA.passed
    rw [hpassed]
    exact mem_singleton.mpr rfl)

end Sync
end Walrust
