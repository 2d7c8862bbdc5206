import Walrust.Compaction.Merge
import Walrust.Compaction.Planner
import Walrust.Lib.Hoare

/-!
# `Walrust.Compaction.Engine` — the safety-ordered compaction run

One call of `run_level_compaction` performs at most one merge at one level: select, converge what an earlier
run left half done, merge, self-check, write, read back, and only then delete the sources.

The run is a program over the bucket in which **any** storage operation can fail, take effect and still
report a failure, store other bytes than it was given, or be the last thing the process does. What was done
before the stop stays done: deletes walk the keys one at a time, so a run can be cut between any two of them.

* `Env` — the codecs and what befalls the `n`-th storage operation;
* `contiguousBatch`, `eligiblePrefixLen`, `selectSources` — batch selection, a pure function of the listing;
* `convergeInterruptedDelete`, `verifyExisting`, `verifyMergedBytes` — the checks before a delete;
* `runLevelCompaction` — the run;
* `CompactionTriggers`, `maybeCompactOwned` — the count-triggered driver of the replicator.
-/

namespace Walrust
namespace Compaction

open Hadbp

/-! ## Storage operations that can stop -/

/-- What befalls one storage operation. -/
inductive Fault where
  | none
  | fails (msg : String)
  /-- A write or delete that takes effect and still reports a failure. -/
  | failsApplied (msg : String)
  /-- A write that stores other bytes and reports success. -/
  | garbles (stored : Bytes)
  /-- The process ends before the operation. -/
  | crash

/-- Why a run stopped. -/
inductive Halt where
  | err (e : CompactionError)
  | crash
  deriving DecidableEq, Repr

/-- The bucket and how many storage operations have been started. -/
structure Storage where
  bucket : Bucket
  ops : Nat

/-- The readers of LTX-heritage objects: `parse_ltx_source_header` and `LtxChangesetStream`, both over the
    litepages decoder. -/
structure LtxSource where
  header : Bytes → Except CompactionError SourceHeader
  stream : Bytes → Except CompactionError PageStream

/-- What a run depends on besides the bucket. -/
structure Env where
  ph : Physical
  ltx : LtxSource
  /-- The bucket prefix and the database's name, as `Key.path` takes them. -/
  pre : String
  name : String
  /-- The clock read of the merge. -/
  createdMs : Int64
  fault : Nat → Fault

abbrev Run := EStateM Halt Storage

variable (env : Env)

/-- `b"LTX1"`. -/
def ltxMagic : Bytes := [76, 84, 88, 49]

theorem take_wire_ne_ltx (cs : PhysicalChangeset) : cs.wire.take 4 ≠ ltxMagic := by
  unfold PhysicalChangeset.wire
  cases cs.declaredEndChecksum <;> simp [headerBytes, magic, ltxMagic]

def Env.path (key : Key) : String := key.path env.pre env.name

def liftE {α : Type} : Except CompactionError α → Run α
  | .ok a => pure a
  | .error e => throw (.err e)

/-- `result.map_err`/`let _ =`: a typed error becomes a value. A crash does not. -/
def attempt {α : Type} (x : Run α) : Run (Except CompactionError α) := fun s =>
  match x s with
  | .ok a s' => .ok (.ok a) s'
  | .error (.err e) s' => .ok (.error e) s'
  | .error .crash s' => .error .crash s'

/-- One storage operation with the effect `apply`, given the bytes a garbled write stores instead. -/
def storageOp (apply : Option Bytes → Bucket → Bucket) : Run Unit := fun s =>
  let next : Storage := { s with ops := s.ops + 1 }
  match env.fault s.ops with
  | .none => .ok () { next with bucket := apply none s.bucket }
  | .fails msg => .error (.err (.storage msg)) next
  | .failsApplied msg => .error (.err (.storage msg)) { next with bucket := apply none s.bucket }
  | .garbles stored => .ok () { next with bucket := apply (some stored) s.bucket }
  | .crash => .error .crash next

/-- A read: nothing is changed, whatever befalls it. -/
def access : Run Unit := storageOp env fun _ b => b

def putObject (key : Key) (bytes : Bytes) : Run Unit :=
  storageOp env fun garbled b => b.put key (garbled.getD bytes)

def deleteObject (key : Key) : Run Unit := storageOp env fun _ b => b.erase key

/-- `get`, with a missing object as an error. -/
def getObject (key : Key) : Run Bytes := do
  access env
  match (← get).bucket.get key with
  | none => throw (.err (.storage s!"missing object {env.path key}"))
  | some bytes => pure bytes

/-! ## The layout -/

/-- `read_header_from_storage`: a HADBP header from a ranged read; an LTX object is read whole. -/
def readHeaderFromStorage (key : Key) : Run SourceHeader := do
  let bytes ← getObject env key
  if bytes.take 4 = ltxMagic then
    access env
    liftE (env.ltx.header bytes)
  else liftE (readHeader bytes)

/-- `open_source_stream`. The page reads of a HADBP source happen during the merge; all of them count as
    the one access that `mergeSources` makes, since a failed one can only fail the merge. -/
def openFromStorage (key : Key) : Run PageStream := do
  let bytes ← getObject env key
  if bytes.take 4 = ltxMagic then
    access env
    liftE (env.ltx.stream bytes)
  else liftE (openSourceStream (env.path key) bytes)

/-- A stable sort by `(min, max)`. -/
def sortFiles (files : List LayoutFile) : List LayoutFile :=
  files.insertionSort fun f g => rangeLe f g = true

/-- The header reads of a listing. -/
def listFiles (level : Level) : List Key → Run (List LayoutFile)
  | [] => pure []
  | key :: keys =>
    match keyRange level key with
    | none => listFiles level keys
    | some range => do
      let header ← readHeaderFromStorage env key
      let files ← listFiles level keys
      pure (⟨key, level, range, header.createdMs⟩ :: files)

/-- `list_level`: one listing, one header read per file, sorted by `(min, max)`. -/
def listLevelOf (level : Level) : Run (List LayoutFile) := do
  access env
  let files ← listFiles env level (← get).bucket.keys
  pure (sortFiles files)

/-- `count_level`. -/
def countLevelOf (level : Level) : Run Nat := do
  access env
  pure (countLevel (← get).bucket level)

/-- `write_merged`: an unconditional put, then the header of the written bytes. -/
def writeMerged (level : Level) (range : SeqRange) (bytes : Bytes) : Run LayoutFile := do
  putObject env (.merged level range.min range.max) bytes
  let header ← liftE (parseSourceHeader bytes)
  pure ⟨.merged level range.min range.max, level, range, header.createdMs⟩

/-- `delete`: one key at a time. -/
def deleteFiles : List LayoutFile → Run Unit
  | [] => pure ()
  | f :: fs => do
    deleteObject env f.key
    deleteFiles fs

/-! ## Batch selection -/

/-- `eligible_prefix_len`: how many of the oldest files are at least `windowMs` old. -/
def eligiblePrefixLen (lastModifiedMs : List Int64) (nowMs windowMs : Int64) : Nat :=
  (lastModifiedMs.takeWhile fun ts => ts ≤ nowMs - windowMs).length

/-- The length of the seq-contiguous run at the front, capped at `batch`. -/
def runLen : Nat → List SeqRange → Nat
  | _, [] => 0
  | _, [_] => 1
  | batch, a :: b :: rest =>
    if a.max + 1 = b.min ∧ 1 < batch then runLen (batch - 1) (b :: rest) + 1 else 1

/-- The scan of `contiguous_batch` from index `i`: a lone file is skipped. -/
def contiguousFrom (batch : Nat) : Nat → List SeqRange → Option (Nat × Nat)
  | _, [] => none
  | i, r :: rest =>
    let len := runLen batch (r :: rest)
    if 2 ≤ len ∨ batch = 1 then some (i, len) else contiguousFrom batch (i + 1) rest

/-- `contiguous_batch`. -/
def contiguousBatch (ranges : List SeqRange) (batch : Nat) : Option (Nat × Nat) :=
  if batch = 0 then none else contiguousFrom batch 0 ranges

/-- The batch's files: the first and the rest. `none` is every `NoOp` exit of the selection. -/
def selectSources (level : Level) (batch : Nat) (windowMs nowMs : Int64) (all : List LayoutFile) :
    Option (LayoutFile × List LayoutFile) :=
  let eligible :=
    if level = 0 then eligiblePrefixLen (all.map (·.lastModifiedMs)) nowMs windowMs else all.length
  if eligible < batch then none
  else
    match contiguousBatch ((all.take eligible).map (·.range)) batch with
    | none => none
    | some (start, len) =>
      match (all.drop start).take len with
      | [] => none
      | first :: rest => some (first, rest)

/-- The span of a batch, from its first file's `min` to its last file's `max`. -/
def spanOf (first : LayoutFile) (rest : List LayoutFile) : SeqRange :=
  ⟨first.range.min, ((first :: rest).getLast (List.cons_ne_nil _ _)).range.max⟩

/-! ## Ranges -/

/-- `ranges_overlap`. -/
def rangesOverlap (a b : SeqRange) : Bool := a.min ≤ b.max && b.min ≤ a.max

/-- `range_subset`. -/
def rangeSubset (a b : SeqRange) : Bool := b.min ≤ a.min && a.max ≤ b.max

/-- `find_existing_merged`: the exact match, unless an object overlaps the range without matching it. -/
def findExistingMerged (range : SeqRange) :
    List LayoutFile → Option LayoutFile → Except CompactionError (Option LayoutFile)
  | [], exact => .ok exact
  | f :: fs, exact =>
    if f.range = range then findExistingMerged range fs (some f)
    else if rangesOverlap f.range range then
      .error (.overlappingExisting (s!"target range {hexPad 16 range.min}-{hexPad 16 range.max} overlaps " ++
        s!"existing merged object {f.key.path env.pre env.name} ({hexPad 16 f.range.min}-" ++
        s!"{hexPad 16 f.range.max}); only an exact-range object is convergence"))
    else findExistingMerged range fs exact

/-- Neighbours in seq order leave no gap and do not overlap. -/
def Adjacent : List LayoutFile → Bool
  | [] => true
  | [_] => true
  | a :: b :: rest => a.range.max + 1 = b.range.min && Adjacent (b :: rest)

/-- `tiles_exactly`, on a nonempty set of files. -/
def tilesExactly (subs : List LayoutFile) (range : SeqRange) : Bool :=
  let s := sortFiles subs
  match s.head?, s.getLast? with
  | some first, some last =>
    first.range.min = range.min && last.range.max = range.max && Adjacent s
  | _, _ => false

/-! ## Checks before a delete -/

/-- The text of an error. -/
def CompactionError.text : CompactionError → String
  | .emptySourceSet => "compaction: refusing to merge an empty source set"
  | .mixedGeometry msg => s!"compaction: mismatched page geometry across sources: {msg}"
  | .nonContiguous msg => s!"compaction: sources are not a contiguous chain: {msg}"
  | .verificationFailed msg => s!"compaction: merged object failed verification: {msg}"
  | .overlappingExisting msg =>
    s!"compaction: unexpected overlapping merged object at target level: {msg}"
  | .decode key source => s!"compaction: malformed changeset at {key}: {source}"
  | .storage msg => s!"compaction: storage error: {msg}"

def decodeAt (key : String) (bytes : Bytes) : Except CompactionError PhysicalChangeset :=
  match env.ph.decode bytes with
  | .error e => .error (.decode key e)
  | .ok cs => .ok cs

/-- `verify_merged_bytes`. -/
def verifyMergedBytes (bytes : Bytes) (expectedPrev expectedDeclaredEnd : UInt64)
    (expectedPageCount : Nat) : Except CompactionError PhysicalChangeset :=
  match decodeAt env "<merged output>" bytes with
  | .error e => .error e
  | .ok cs =>
    if ¬ cs.isCompacted then
      .error (.verificationFailed "merged output is not marked COMPACTED")
    else if cs.header.prevChecksum ≠ expectedPrev then
      .error (.verificationFailed
        s!"prev_checksum {cs.header.prevChecksum} != expected {expectedPrev}")
    else if chainEnd cs ≠ expectedDeclaredEnd then
      .error (.verificationFailed
        s!"chain_end {chainEnd cs} != expected declared_end {expectedDeclaredEnd}")
    else if cs.header.pageCount ≠ UInt32.ofNat expectedPageCount ∨
        UInt32.ofNat cs.pages.length ≠ UInt32.ofNat expectedPageCount then
      .error (.verificationFailed (s!"page_count {cs.header.pageCount} / pages {cs.pages.length} " ++
        s!"!= expected {expectedPageCount}"))
    else .ok cs

/-- `verify_covers`. -/
def verifyCovers (covering : LayoutFile) : Run PhysicalChangeset := do
  let bytes ← getObject env covering.key
  let cs ← liftE (decodeAt env (env.path covering.key) bytes)
  if !cs.isCompacted then
    throw (.err (.verificationFailed "covering object not COMPACTED"))
  if cs.pages.isEmpty then
    throw (.err (.verificationFailed "covering object has no pages"))
  return cs

/-- `source_chain_end`: the declared end if the header carries one, else the decoded object's. -/
def sourceChainEnd (s : LayoutFile) : Run UInt64 := do
  let h ← readHeaderFromStorage env s.key
  match h.declaredEndChecksum with
  | some e => pure e
  | none =>
    let bytes ← getObject env s.key
    let cs ← liftE (decodeAt env (env.path s.key) bytes)
    pure (chainEnd cs)

section

variable (cover : LayoutFile) (coverCs : PhysicalChangeset) (s : LayoutFile)

/-- A source at the cover's `min` must carry the cover's `prev_checksum`. -/
def minEvidence : Run Bool :=
  if s.range.min = cover.range.min then do
    let h ← readHeaderFromStorage env s.key
    pure (decide (h.prevChecksum = coverCs.header.prevChecksum))
  else pure true

/-- A source at the cover's `max` must end where the cover's chain ends. -/
def maxEvidence : Run Bool :=
  if s.range.max = cover.range.max then do
    let e ← sourceChainEnd env s
    pure (decide (e = chainEnd coverCs))
  else pure true

end

/-- `endpoint_chain_evidence`: what sits on the cover's boundary chains as the cover does. -/
def endpointChainEvidence (cover : LayoutFile) (coverCs : PhysicalChangeset) :
    List LayoutFile → Run Bool
  | [] => pure true
  | s :: subs => do
    if ← minEvidence env cover coverCs s then
      if ← maxEvidence env cover coverCs s then
        endpointChainEvidence cover coverCs subs
      else pure false
    else pure false

/-- `verify_existing`. -/
def verifyExisting (existing first : LayoutFile) (rest : List LayoutFile) : Run Unit := do
  let bytes ← getObject env existing.key
  let cs ← liftE (decodeAt env (env.path existing.key) bytes)
  if !cs.isCompacted then
    throw (.err (.verificationFailed "existing object not COMPACTED"))
  let last := (first :: rest).getLast (List.cons_ne_nil _ _)
  let firstHeader ← readHeaderFromStorage env first.key
  if cs.header.prevChecksum ≠ firstHeader.prevChecksum then
    throw (.err (.verificationFailed "existing prev_checksum does not match first source"))
  if cs.header.seq.toNat ≠ last.range.max then
    throw (.err (.verificationFailed "existing seq does not match range end"))
  let lastBytes ← getObject env last.key
  let lastCs ← liftE (decodeAt env (env.path last.key) lastBytes)
  if chainEnd cs ≠ chainEnd lastCs then
    throw (.err (.verificationFailed "existing declared_end does not match last source chain_end"))
  if cs.pages.isEmpty then
    throw (.err (.verificationFailed "existing object has no pages"))

/-! ## Converging an interrupted delete -/

/-- The present sources that lie within `m`. -/
def coveredBy (sources : List LayoutFile) (m : LayoutFile) : List LayoutFile :=
  sources.filter fun s => rangeSubset s.range m.range

/-- `deletable.push`, once per key. -/
def pushNew (deletable subs : List LayoutFile) : List LayoutFile :=
  subs.foldl (fun d s => if d.any (fun x => x.key = s.key) then d else d ++ [s]) deletable

/-- The loop of `converge_interrupted_delete` over the target level: what to delete, and the first cover. -/
def convergeScan (sources : List LayoutFile) :
    List LayoutFile → List LayoutFile → Option LayoutFile → Run (List LayoutFile × Option LayoutFile)
  | [], deletable, cover => pure (deletable, cover)
  | m :: ms, deletable, cover =>
    let subs := coveredBy sources m
    if subs.isEmpty then convergeScan sources ms deletable cover
    -- the untouched source set of `m`: left to the exact-range recovery
    else if tilesExactly subs m.range then convergeScan sources ms deletable cover
    else do
      match ← attempt (verifyCovers env m) with
      | .error (.storage msg) => throw (.err (.storage msg))
      | .error _ => convergeScan sources ms deletable cover
      | .ok coverCs =>
        if ← endpointChainEvidence env m coverCs subs then
          convergeScan sources ms (pushNew deletable subs) (cover.or (some m))
        else convergeScan sources ms deletable cover

/-- What one compaction run did. -/
inductive CompactionOutcome where
  | noOp
  | merged (count : Nat) (output : LayoutFile)
  | convergedExistingDeletion (count : Nat) (output : LayoutFile)
  deriving DecidableEq, Repr

def CompactionOutcome.mergedCount : CompactionOutcome → Nat
  | .noOp => 0
  | .merged count _ => count
  | .convergedExistingDeletion count _ => count

/-- `converge_interrupted_delete`. -/
def convergeInterruptedDelete (targetFiles sources : List LayoutFile) : Run (Option CompactionOutcome) := do
  match ← convergeScan env sources targetFiles [] none with
  | (d :: ds, some cover) =>
    deleteFiles env (d :: ds)
    pure (some (.convergedExistingDeletion (d :: ds).length cover))
  | _ => pure none

/-! ## The run -/

/-- The inputs of a merge: each source's header and page stream. -/
def openSources : List LayoutFile → Run (List MergeInput)
  | [] => pure []
  | f :: fs => do
    let header ← readHeaderFromStorage env f.key
    let stream ← openFromStorage env f.key
    let inputs ← openSources fs
    pure (⟨header, f.range, stream⟩ :: inputs)

/-- Steps 3 and 4: merge the sources and self-check the produced bytes. -/
def mergeSources (sources : List LayoutFile) : Run MergeResult := do
  let inputs ← openSources env sources
  access env
  let (result, _) ← liftE (mergeChangesets env.ph.sha64 env.createdMs inputs ⟨0, 0⟩)
  match verifyMergedBytes env result.bytes result.prevChecksum result.declaredEndChecksum
      result.pageCount with
  | .error e => throw (.err (.verificationFailed s!"pre-write self-check: {e.text}"))
  | .ok _ => pure result

/-- Steps 5 to 7: write, read back, and only then delete the sources. -/
def swapIn (targetLevel : Level) (range : SeqRange) (sources : List LayoutFile) (result : MergeResult) :
    Run CompactionOutcome := do
  let output ← writeMerged env targetLevel range result.bytes
  let readback ← getObject env output.key
  match verifyMergedBytes env readback result.prevChecksum result.declaredEndChecksum
      result.pageCount with
  | .error e =>
    let _ ← attempt (deleteFiles env [output])
    throw (.err (.verificationFailed s!"read-back verify failed, sources preserved: {e.text}"))
  | .ok _ =>
    deleteFiles env sources
    pure (.merged sources.length output)

/-- Step 2: an exact-range object of an earlier run. `true` means it is sound; an unsound one is deleted. -/
def recoverExisting (existing first : LayoutFile) (rest : List LayoutFile) : Run Bool := do
  match ← attempt (verifyExisting env existing first rest) with
  | .ok () => pure true
  | .error _ =>
    deleteFiles env [existing]
    pure false

/-- What is done with a selected batch. -/
def compactBatch (targetLevel : Level) (targetFiles : List LayoutFile) (first : LayoutFile)
    (rest : List LayoutFile) : Run CompactionOutcome := do
  let range := spanOf first rest
  let sources := first :: rest
  match ← liftE (findExistingMerged env range targetFiles none) with
  | some existing =>
    if ← recoverExisting env existing first rest then
      deleteFiles env sources
      pure (.convergedExistingDeletion sources.length existing)
    else
      let result ← mergeSources env sources
      swapIn env targetLevel range sources result
  | none =>
    let result ← mergeSources env sources
    swapIn env targetLevel range sources result

/-- `run_level_compaction`. -/
def runLevelCompaction (level : Level) (batch : Nat) (windowMs nowMs : Int64) :
    Run CompactionOutcome := do
  if batch = 0 then
    return .noOp
  let all ← listLevelOf env level
  let targetFiles ← listLevelOf env (level + 1)
  match ← convergeInterruptedDelete env targetFiles all with
  | some converged => pure converged
  | none =>
    match selectSources level batch windowMs nowMs all with
    | none => pure .noOp
    | some (first, rest) => compactBatch env (level + 1) targetFiles first rest

/-! ## The driver -/

structure TriggerConfig where
  l1Batch : Nat
  l2Batch : Nat
  keepFineWindowMs : Int64
  deriving DecidableEq, Repr

/-- `CompactionTriggers`: the files of each level not yet folded into the next, as counted in memory. -/
structure CompactionTriggers where
  config : TriggerConfig
  l0Pending : Nat
  l1Pending : Nat
  deriving DecidableEq, Repr

namespace CompactionTriggers

variable (t : CompactionTriggers)

def onL0Written : CompactionTriggers := { t with l0Pending := t.l0Pending + 1 }
def shouldCompactL0ToL1 : Bool := t.config.l1Batch ≤ t.l0Pending
def shouldCompactL1ToL2 : Bool := t.config.l2Batch ≤ t.l1Pending

def onL0ToL1Merged (merged : Nat) : CompactionTriggers :=
  { t with l0Pending := t.l0Pending - merged, l1Pending := t.l1Pending + 1 }

def onL1ToL2Merged (merged : Nat) : CompactionTriggers :=
  { t with l1Pending := t.l1Pending - merged }

end CompactionTriggers

section

variable (cfg : TriggerConfig) (triggers : Option CompactionTriggers) (producedL0 : Bool)

/-- The first half of a tick: seed the counts if there are none, and record the published file. -/
def seedTriggers :
    Run CompactionTriggers := do
  let t ← match triggers with
    | some t => pure t
    | none => do
      let l0 ← countLevelOf env 0
      let l1 ← countLevelOf env 1
      pure ⟨cfg, l0, l1⟩
  pure (if producedL0 then t.onL0Written else t)

/-- `maybe_compact_owned`. The triggers are part of the state: a run that stops leaves them as counted so
    far, in the second component. -/
def maybeCompactOwned
    (nowMs : Int64) (s : Storage) : EStateM.Result Halt Storage Unit × Option CompactionTriggers :=
  match seedTriggers env cfg triggers producedL0 s with
  | .error e s => (.error e s, triggers)
  | .ok t s =>
    let first : EStateM.Result Halt Storage CompactionTriggers :=
      if t.shouldCompactL0ToL1 then
        match runLevelCompaction env 0 cfg.l1Batch cfg.keepFineWindowMs nowMs s with
        | .error e s => .error e s
        | .ok outcome s =>
          .ok (if 0 < outcome.mergedCount then t.onL0ToL1Merged outcome.mergedCount else t) s
      else .ok t s
    match first with
    | .error e s => (.error e s, some t)
    | .ok t s =>
      if t.shouldCompactL1ToL2 then
        match runLevelCompaction env 1 cfg.l2Batch cfg.keepFineWindowMs nowMs s with
        | .error e s => (.error e s, some t)
        | .ok outcome s =>
          (.ok () s, some (if 0 < outcome.mergedCount then t.onL1ToL2Merged outcome.mergedCount else t))
      else (.ok () s, some t)

end

end Compaction
end Walrust
