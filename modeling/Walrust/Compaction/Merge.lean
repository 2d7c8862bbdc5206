import Walrust.Compaction.Layout
import Walrust.Lib.KWay
import Walrust.Ltx

/-!
# `Walrust.Compaction.Merge` — the streaming k-way merge

`merge_changesets`: N contiguous source changesets become one COMPACTED changeset, page-level
last-writer-wins. The model keeps the source's loop: a frontier heap with one page per source, a pending
slot for the current page id, the end-page-count of the last source captured when its marker page is
*read*, streaming hashers, and the header patched at the end.

* `MergeState` / `readNext` / `resolve` / `mergeLoop` — the loop and its state;
* `mergeChangesets` — the whole function, with its error exits;
* `pageTagging` — the frontier as an instance of `Lib.KWay`, whose merge law the correctness proof uses.
-/

namespace Walrust
namespace Compaction

open Hadbp Lib.Bytes Lib.File Lib.KWay

/-! ## Inputs, outputs, memory accounting -/

/-- One source fed to the merge: its header metadata plus a page stream. -/
structure MergeInput where
  header : SourceHeader
  range : SeqRange
  stream : PageStream
  deriving DecidableEq, Repr

structure MergeResult where
  bytes : Bytes
  range : SeqRange
  outSeq : UInt64
  prevChecksum : UInt64
  declaredEndChecksum : UInt64
  pageCount : Nat
  deriving DecidableEq, Repr

/-- Live-page counter: pages buffered now, and the high-water mark. -/
structure PeakPages where
  current : Nat
  peak : Nat
  deriving DecidableEq, Repr

def PeakPages.inc (t : PeakPages) : PeakPages :=
  { current := t.current + 1, peak := max t.peak (t.current + 1) }

def PeakPages.dec (t : PeakPages) : PeakPages :=
  { t with current := t.current - 1 }

/-! ## The frontier -/

/-- A page held in the frontier heap, tagged with which source it came from. -/
structure HeapPage where
  pageId : PageId
  /-- Source order index; higher index = higher seq = wins ties. -/
  order : Nat
  page : PageEntry
  deriving DecidableEq, Repr

/-- Heap pages order by page id, then by source: the heap's reversed `Ord`. -/
def pageTagging : Tagging PageEntry HeapPage Nat where
  itemKey p := p.pageId.toU64
  tag i p := { pageId := p.pageId, order := i, page := p }
  key h := h.pageId.toU64
  order h := h.order
  item h := h.page
  key_tag _ _ := rfl
  order_tag _ _ := rfl
  item_tag _ _ := rfl

structure MergeState where
  streams : List PageStream
  /-- Bytes fed to each source's own content hasher. -/
  sourceHashers : List Bytes
  heap : List HeapPage
  /-- Pending winner for the current page id. -/
  pending : Option HeapPage
  finalEndPageCount : Option Nat
  buf : Bytes
  /-- Bytes fed to the output's content hasher. -/
  hasher : Bytes
  pageCount : Nat
  tracker : PeakPages
  deriving DecidableEq, Repr

/-- What `hash_source_page` feeds the hasher: the id at the header's width, the length, the data. -/
def hashSourcePage (pageIdSize : PageIdSize) (page : PageEntry) : Bytes :=
  beBytes pageIdSize.width page.pageId.toU64 ++ beBytes 4 page.data.length ++ page.data

/-- The last source's marker declares the final database size. -/
def captureEpc (n order : Nat) (page : PageEntry) (finalEpc : Option Nat) : Option Nat :=
  if order = n - 1 ∧ page.data = [] then some (page.pageId.toU64 - 1) else finalEpc

/-- Read the next page of source `order` onto the frontier. -/
def readNext (pageIdSize : PageIdSize) (n order : Nat) (st : MergeState) :
    Except CompactionError MergeState :=
  match st.streams[order]? with
  | none => .ok st
  | some stream =>
    match stream.nextPage with
    | .error e => .error e
    | .ok (none, _) => .ok st
    | .ok (some page, stream') => .ok { st with
        streams := st.streams.set order stream'
        sourceHashers := st.sourceHashers.modify order (· ++ hashSourcePage pageIdSize page)
        finalEndPageCount := captureEpc n order page st.finalEndPageCount
        heap := pageTagging.tag order page :: st.heap
        tracker := st.tracker.inc }

/-- Prime the frontier: one page per source, in source order. -/
def primeFrontier (pageIdSize : PageIdSize) (n : Nat) :
    List Nat → MergeState → Except CompactionError MergeState
  | [], st => .ok st
  | order :: orders, st =>
    match readNext pageIdSize n order st with
    | .error e => .error e
    | .ok st' => primeFrontier pageIdSize n orders st'

/-! ## Emitting -/

/-- Whether a resolved winning page is written: superseded markers and shrink-orphans are dropped. -/
def shouldEmit (page : PageEntry) (finalEndPageCount : Option Nat) : Bool :=
  if page.data = [] then false
  else
    match finalEndPageCount with
    | some epc => page.pageId.toU64 ≤ epc
    | none => true

/-- Append a page to the output buffer and to the output content hasher. -/
def emitPage (page : PageEntry) (st : MergeState) : MergeState :=
  { st with buf := st.buf ++ page.bytes, hasher := st.hasher ++ page.bytes }

/-- Flush a pending page that is no longer contested; its guard is dropped with it. -/
def flush (p : HeapPage) (st : MergeState) : MergeState :=
  let st := if shouldEmit p.page st.finalEndPageCount then
      { emitPage p.page st with pageCount := st.pageCount + 1 }
    else st
  { st with tracker := st.tracker.dec }

/-- Resolve the winner for the popped page's id. The flag says that the popped page lost and is dropped
    at the end of the iteration. -/
def resolve (top : HeapPage) (st : MergeState) : MergeState × Bool :=
  match st.pending with
  | some p =>
    if p.pageId = top.pageId then
      if p.order ≤ top.order then
        ({ st with pending := some top, tracker := st.tracker.dec }, false)
      else (st, true)
    else ({ flush p st with pending := some top }, false)
  | none => ({ st with pending := some top }, false)

/-- One iteration: resolve the popped page, then advance its source. -/
def mergeStep (pageIdSize : PageIdSize) (n : Nat) (top : HeapPage) (st : MergeState) :
    Except CompactionError MergeState :=
  let (st', dropped) := resolve top st
  match readNext pageIdSize n top.order st' with
  | .error e => .error e
  | .ok st'' => .ok (if dropped then { st'' with tracker := st''.tracker.dec } else st'')

/-- `while let Some(top) = heap.pop()`. Every iteration consumes one page, so `fuel` bounds the total
    number of pages. -/
def mergeLoop (pageIdSize : PageIdSize) (n : Nat) : Nat → MergeState → Except CompactionError MergeState
  | 0, st => .ok st
  | fuel + 1, st =>
    match popMin pageTagging st.heap with
    | none => .ok st
    | some (top, heap) =>
      match mergeStep pageIdSize n top { st with heap := heap } with
      | .error e => .error e
      | .ok st' => mergeLoop pageIdSize n fuel st'

/-! ## The whole merge -/

def flagsOff : Nat := 6
def pageCountOff : Nat := 28
def declaredOff : Nat := 40

/-- The header with zero placeholders for `page_count` and `declared_end`. -/
def placeholderHeader (pageIdSize : PageIdSize) (pageSize : UInt32) (outSeq prevChecksum : UInt64)
    (createdMs : Int64) : Bytes :=
  magic ++ [2, 0x80, UInt8.ofNat pageIdSize.width] ++ beBytes 4 pageSize.toNat ++
    beBytes 8 outSeq.toNat ++ beBytes 8 prevChecksum.toNat ++ beBytes 4 0 ++
    beBytes 8 createdMs.toUInt64.toNat ++ beBytes 8 0

/-- The state before the frontier is primed. -/
def initialState (sources : List MergeInput) (header : Bytes) (prevChecksum : UInt64)
    (tracker : PeakPages) : MergeState where
  streams := sources.map MergeInput.stream
  sourceHashers := sources.map (fun s => beBytes 8 s.header.prevChecksum.toNat)
  heap := []
  pending := none
  finalEndPageCount := none
  buf := header
  hasher := beBytes 8 prevChecksum.toNat
  pageCount := 0
  tracker := tracker

/-- Flush the page that is still pending when the frontier is empty. -/
def flushPending (st : MergeState) : MergeState :=
  match st.pending with
  | some p => { flush p st with pending := none }
  | none => st

/-- The page at `end_page_count + 1` that declares the final size. -/
def markerPage (pageIdSize : PageIdSize) (epc : Nat) : PageEntry where
  pageId := match pageIdSize with
    | .u32 => .u32 (UInt32.ofNat (epc + 1))
    | .u64 => .u64 (UInt64.ofNat (epc + 1))
  data := []

/-- Emit the single canonical marker for the final database size, and set its flag in the header. -/
def emitMarker (pageIdSize : PageIdSize) (st : MergeState) : MergeState :=
  match st.finalEndPageCount with
  | none => st
  | some epc =>
    let st := { emitPage (markerPage pageIdSize epc) st with pageCount := st.pageCount + 1 }
    { st with buf := st.buf.set flagsOff (st.buf.getD flagsOff 0 ||| Ltx.flagEndPageCountMarker) }

/-- Each source's chain end: declared when compacted, else its streamed content checksum. -/
def sourceChainEnds (sha64 : Bytes → UInt64) (sources : List MergeInput) (hashers : List Bytes) :
    List UInt64 :=
  (sources.zip hashers).map (fun (s, h) => s.header.declaredEndChecksum.getD (sha64 h))

/-- The contiguity check from source `i` on: each source chains from the chain end before it. -/
def checkContiguous (prevEnd : UInt64) : Nat → List (MergeInput × UInt64) → Except CompactionError Unit
  | _, [] => .ok ()
  | i, (s, chainEnd) :: rest =>
    if s.header.prevChecksum ≠ prevEnd then
      .error (.nonContiguous (s!"source[{i}].prev_checksum {s.header.prevChecksum} != " ++
        s!"source[{i - 1}].chain_end {prevEnd}"))
    else checkContiguous chainEnd (i + 1) rest

def geometryError (first s : SourceHeader) : CompactionError :=
  let name : PageIdSize → String := fun z => match z with
    | .u32 => "U32"
    | .u64 => "U64"
  .mixedGeometry (s!"page_id_size/page_size differ: ({name first.pageIdSize},{first.pageSize}) vs " ++
    s!"({name s.pageIdSize},{s.pageSize})")

/-- The seq of the last source: the output seq. -/
def lastSeq (first : MergeInput) (rest : List MergeInput) : UInt64 :=
  ((first :: rest).getLast (List.cons_ne_nil _ _)).header.seq

/-- The seq span of all sources. -/
def outRange (first : MergeInput) (rest : List MergeInput) : SeqRange where
  min := rest.foldl (fun m s => min m s.range.min) first.range.min
  max := rest.foldl (fun m s => max m s.range.max) first.range.max

/-- The streaming part: prime the frontier, run the loop, flush what is pending, emit the marker. -/
def streamPages (pageIdSize : PageIdSize) (header : Bytes) (prevChecksum : UInt64)
    (sources : List MergeInput) (tracker : PeakPages) : Except CompactionError MergeState :=
  let n := sources.length
  match primeFrontier pageIdSize n (List.range n) (initialState sources header prevChecksum tracker) with
  | .error e => .error e
  | .ok st =>
    match mergeLoop pageIdSize n (sources.map (fun s => s.stream.pages.length)).sum st with
    | .error e => .error e
    | .ok st => .ok (emitMarker pageIdSize (flushPending st))

/-- Finalize: check the chain, append the content checksum, patch the two placeholders. -/
def sealMerged (sha64 : Bytes → UInt64) (first : MergeInput) (rest : List MergeInput) (st : MergeState) :
    Except CompactionError (MergeResult × PeakPages) :=
  let chainEnds := sourceChainEnds sha64 (first :: rest) st.sourceHashers
  match checkContiguous (chainEnds.headD 0) 1 (rest.zip chainEnds.tail) with
  | .error e => .error e
  | .ok () =>
    let declaredEnd := chainEnds.getLastD 0
    let buf := st.buf ++ beBytes 8 (sha64 st.hasher).toNat
    let buf := writeAt buf pageCountOff (beBytes 4 st.pageCount)
    let buf := writeAt buf declaredOff (beBytes 8 declaredEnd.toNat)
    .ok ({ bytes := buf
           range := outRange first rest
           outSeq := lastSeq first rest
           prevChecksum := first.header.prevChecksum
           declaredEndChecksum := declaredEnd
           pageCount := st.pageCount }, st.tracker)

/-- Merge the given sources (ascending by seq) into one COMPACTED changeset. -/
def mergeChangesets (sha64 : Bytes → UInt64) (createdMs : Int64) (sources : List MergeInput)
    (tracker : PeakPages) : Except CompactionError (MergeResult × PeakPages) :=
  match sources with
  | [] => .error .emptySourceSet
  | first :: rest =>
    let size := first.header.pageIdSize
    let pageSize := first.header.pageSize
    match sources.find? (fun s => s.header.pageIdSize ≠ size ∨ s.header.pageSize ≠ pageSize) with
    | some s => .error (geometryError first.header s.header)
    | none =>
      let header := placeholderHeader size pageSize (lastSeq first rest) first.header.prevChecksum createdMs
      match streamPages size header first.header.prevChecksum sources tracker with
      | .error e => .error e
      | .ok st => sealMerged sha64 first rest st

end Compaction
end Walrust
