import Walrust.Compaction.Layout

/-!
# `Walrust.Compaction.Streaming` — reading an object page by page

The merge engine never loads a source whole. It reads the header from the first 48 bytes and then one page at a time
by ranged reads, with its own cursor arithmetic over the variable-length records. `Layout.storagePages` is that reader
run to its end; here it is the stream of the source, one call at a time.

* `rangeGet` — a ranged read returns the bytes of the range that exist;
* `StorageChangesetStream`, `nextPage`, `drain` — the stream;
* `drain_eq` — a drained stream is the `PageStream` the engine's model uses;
* `nextPage_mono`, `nextPage_cursor` — a page that was read is in the object, and a longer object has the same page;
* `stream_decodes` — the stream against the decoder, and on every truncation.
-/

namespace Walrust
namespace Compaction

open Hadbp Lib.Bytes List

variable {ps : List PageEntry} {obj : Bytes} {p : PageEntry}

/-! ## The stream -/

/-- `range_get` on an object that exists. -/
def rangeGet (obj : Bytes) (start len : Nat) : Bytes := (obj.drop start).take len

/-- `StorageChangesetStream`. -/
structure StorageChangesetStream where
  key : String
  pageIdSize : PageIdSize
  cursor : Nat
  remaining : Nat
  deriving DecidableEq, Repr

namespace StorageChangesetStream

/-- `StorageChangesetStream::open`. -/
def «open» (key : String) (header : SourceHeader) : StorageChangesetStream where
  key := key
  pageIdSize := header.pageIdSize
  cursor := bodyOffset header
  remaining := header.pageCount.toNat

/-- The page id at the front of a record. -/
def readPageId (size : PageIdSize) (head : Bytes) : PageId :=
  match size with
  | .u32 => .u32 (UInt32.ofNat (beNat (head.take 4)))
  | .u64 => .u64 (UInt64.ofNat (beNat (head.take 8)))

/-- The data of a record; nothing is read for an empty page. -/
def readData (obj : Bytes) (start len : Nat) : Bytes := if len = 0 then [] else rangeGet obj start len

theorem readData_eq (obj : Bytes) (start len : Nat) : readData obj start len = rangeGet obj start len := by
  unfold readData
  split
  · rename_i h
    rw [h, rangeGet, take_zero]
  · rfl

/-- `next_page`: the fixed part of the record, then its data. -/
def nextPage (obj : Bytes) (s : StorageChangesetStream) :
    Except CompactionError (Option PageEntry × StorageChangesetStream) :=
  if s.remaining = 0 then .ok (none, s)
  else
    let pidLen := s.pageIdSize.width
    let head := rangeGet obj s.cursor (pidLen + 4)
    if head.length < pidLen + 4 then .error (.storage s!"short page prefix in {s.key} at {s.cursor}")
    else
      let dataLen := beNat (head.drop pidLen)
      let dataStart := s.cursor + (pidLen + 4)
      let data := readData obj dataStart dataLen
      if data.length ≠ dataLen then
        .error (.storage s!"short page data in {s.key}: want {dataLen} got {data.length}")
      else
        .ok (some ⟨readPageId s.pageIdSize head, data⟩,
          { s with cursor := dataStart + dataLen, remaining := s.remaining - 1 })

variable {s s' : StorageChangesetStream}

/-- A page is read from the front of the record at the cursor, whole. -/
structure Yields (obj : Bytes) (s : StorageChangesetStream) (p : PageEntry) (s' : StorageChangesetStream) : Prop where
  pending : 0 < s.remaining
  head : (rangeGet obj s.cursor (s.pageIdSize.width + 4)).length = s.pageIdSize.width + 4
  pageId : p.pageId = readPageId s.pageIdSize (rangeGet obj s.cursor (s.pageIdSize.width + 4))
  dataLen : p.data.length = beNat ((rangeGet obj s.cursor (s.pageIdSize.width + 4)).drop s.pageIdSize.width)
  data : p.data = rangeGet obj (s.cursor + (s.pageIdSize.width + 4)) p.data.length
  next : s' = { s with cursor := s.cursor + (s.pageIdSize.width + 4) + p.data.length, remaining := s.remaining - 1 }

theorem length_rangeGet_le (obj : Bytes) (start len : Nat) : (rangeGet obj start len).length ≤ len := by
  rw [rangeGet, length_take]
  exact min_le_left _ _

theorem nextPage_some_iff : nextPage obj s = .ok (some p, s') ↔ Yields obj s p s' := by
  have hle := length_rangeGet_le obj s.cursor (s.pageIdSize.width + 4)
  constructor
  · intro h
    unfold nextPage at h
    split at h
    · cases h
    rename_i hpending
    dsimp only at h
    split at h
    · cases h
    split at h
    · cases h
    rename_i hdata
    cases h
    have hlen := not_not.mp hdata
    refine ⟨pos_of_ne_zero hpending, by omega, rfl, hlen, ?_, by rw [hlen]⟩
    rw [hlen, readData_eq]
  · intro h
    unfold nextPage
    rw [if_neg h.pending.ne']
    dsimp only
    rw [if_neg (by rw [h.head]; exact lt_irrefl _), ← h.dataLen, readData_eq, ← h.data, if_neg (not_not.mpr rfl),
      ← h.pageId, h.next]

theorem nextPage_none_iff : nextPage obj s = .ok (none, s') ↔ s.remaining = 0 ∧ s' = s := by
  constructor
  · intro h
    unfold nextPage at h
    split at h
    · rename_i h0
      cases h
      exact ⟨h0, rfl⟩
    · dsimp only at h
      split at h
      · cases h
      split at h
      · cases h
      · cases h
  · rintro ⟨h0, rfl⟩
    exact if_pos h0

theorem Yields.remaining_lt (h : Yields obj s p s') : s'.remaining < s.remaining := by
  rw [h.next]
  exact Nat.sub_lt h.pending one_pos

/-- The loop over `next_page` until it returns none. -/
def drain (obj : Bytes) (s : StorageChangesetStream) : Except CompactionError (List PageEntry) :=
  match _h : s.nextPage obj with
  | .error e => .error e
  | .ok (none, _) => .ok []
  | .ok (some p, s') => (drain obj s').map (p :: ·)
termination_by s.remaining
decreasing_by exact (nextPage_some_iff.mp _h).remaining_lt

theorem drain_done (h : s.remaining = 0) : drain obj s = .ok [] := by
  rw [drain]
  split
  · rename_i e he
    rw [nextPage_none_iff.mpr ⟨h, rfl⟩] at he
    cases he
  · rfl
  · rename_i p s' hp
    rw [nextPage_none_iff.mpr ⟨h, rfl⟩] at hp
    cases hp

theorem drain_step (h : Yields obj s p s') : drain obj s = (drain obj s').map (p :: ·) := by
  rw [drain]
  split
  · rename_i e he
    rw [nextPage_some_iff.mpr h] at he
    cases he
  · rename_i he
    rw [nextPage_some_iff.mpr h] at he
    cases he
  · rename_i q s'' hq
    rw [nextPage_some_iff.mpr h] at hq
    cases hq
    rfl

/-- A drained stream with pages to come has read the first of them. -/
theorem drain_ok_cases (h : drain obj s = .ok ps) :
    (s.remaining = 0 ∧ ps = []) ∨
      ∃ p s' rest, Yields obj s p s' ∧ drain obj s' = .ok rest ∧ ps = p :: rest := by
  rw [drain] at h
  split at h
  · cases h
  · rename_i hnone
    cases h
    exact .inl ⟨(nextPage_none_iff.mp hnone).1, rfl⟩
  · rename_i p s' hp
    cases hrest : drain obj s' with
    | error e => simp [hrest, Except.map] at h
    | ok rest =>
      rw [hrest] at h
      cases h
      exact .inr ⟨p, s', rest, nextPage_some_iff.mp hp, hrest, rfl⟩

/-! ## The stream and the engine's model of it -/

end StorageChangesetStream

open StorageChangesetStream

/-- What a page stream gives when it is read to its end. -/
def PageStream.drained (s : PageStream) : Except CompactionError (List PageEntry) :=
  match s.fault with
  | some e => .error e
  | none => .ok s.pages

/-- **A drained stream is `storagePages`**, error for error. -/
theorem drain_eq (obj : Bytes) (s : StorageChangesetStream) :
    drain obj s = (storagePages s.key s.pageIdSize obj s.remaining s.cursor).drained := by
  generalize hn : s.remaining = n
  induction n generalizing s with
  | zero =>
    rw [drain_done hn]
    rfl
  | succ n ih =>
    unfold storagePages
    rw [drain]
    split
    · rename_i e he
      unfold nextPage at he
      rw [if_neg (by omega)] at he
      dsimp only at he ⊢
      rw [rangeGet] at he
      split at he
      · rename_i hshort
        cases he
        rw [if_pos hshort]
        rfl
      rename_i hlong
      rw [if_neg hlong]
      split at he
      · rename_i hdata
        cases he
        rw [readData_eq, rangeGet] at hdata ⊢
        rw [if_pos hdata]
        rfl
      · cases he
    · rename_i he
      have := (nextPage_none_iff.mp he).1
      omega
    rename_i p s' hp
    have h := nextPage_some_iff.mp hp
    have hdata : (obj.drop (s.cursor + (s.pageIdSize.width + 4))).take p.data.length = p.data := h.data.symm
    have hhead := h.head
    have hlen := h.dataLen
    have hid := h.pageId
    rw [rangeGet] at hhead hlen hid
    dsimp only
    rw [if_neg (by rw [hhead]; exact lt_irrefl _), ← hlen, hdata, if_neg (by simp), ih s' (by rw [h.next]; simp [hn]),
      h.next]
    have hentry : p = ⟨readPageId s.pageIdSize ((obj.drop s.cursor).take (s.pageIdSize.width + 4)), p.data⟩ := by
      rw [← hid]
    conv_lhs => rw [hentry]
    unfold PageStream.drained readPageId
    cases (storagePages s.key s.pageIdSize obj n (s.cursor + (s.pageIdSize.width + 4) + p.data.length)).fault <;> rfl

/-! ## Truncated objects -/

/-- A range that was read in full is the same in a longer object. -/
theorem rangeGet_of_prefix {obj' : Bytes} (hpre : obj' <+: obj) {start len : Nat}
    (hfull : (rangeGet obj' start len).length = len) : rangeGet obj start len = rangeGet obj' start len := by
  obtain ⟨rest, rfl⟩ := hpre
  simp only [rangeGet, length_take, length_drop] at hfull ⊢
  by_cases hlen : len = 0
  · rw [hlen, take_zero, take_zero]
  · rw [drop_append_of_le_length (by omega), take_append_of_le_length (by rw [length_drop]; omega)]

theorem rangeGet_end {start len : Nat} (hfull : (rangeGet obj start len).length = len)
    (hstart : start ≤ obj.length) : start + len ≤ obj.length := by
  simp only [rangeGet, length_take, length_drop] at hfull
  omega

section

variable {obj' : Bytes} {s s' : StorageChangesetStream}

/-- A page read from the front part of an object is the page of the object. -/
theorem nextPage_mono (hpre : obj' <+: obj) (h : Yields obj' s p s') : Yields obj s p s' := by
  have hhead := rangeGet_of_prefix hpre h.head
  have hdata := rangeGet_of_prefix hpre (congrArg List.length h.data).symm
  exact ⟨h.pending, by rw [hhead]; exact h.head, by rw [hhead]; exact h.pageId, by rw [hhead]; exact h.dataLen,
    by rw [hdata]; exact h.data, h.next⟩

theorem drain_mono (hpre : obj' <+: obj) (h : drain obj' s = .ok ps) : drain obj s = .ok ps := by
  induction ps generalizing s with
  | nil =>
    rcases drain_ok_cases h with ⟨h0, -⟩ | ⟨p, s', rest, -, -, hcons⟩
    · exact drain_done h0
    · cases hcons
  | cons p ps ih =>
    rcases drain_ok_cases h with ⟨-, hnil⟩ | ⟨q, s', rest, hy, hrest, hcons⟩
    · cases hnil
    · cases hcons
      rw [drain_step (nextPage_mono hpre hy), ih hrest]
      rfl

/-- The cursor moves over the record that was read, and the record is in the object. -/
theorem nextPage_cursor (h : Yields obj s p s') :
    s'.cursor = s.cursor + p.bytes.length ∧ s'.cursor ≤ obj.length := by
  have hsize : p.pageId.size = s.pageIdSize := by
    rw [h.pageId]
    cases s.pageIdSize <;> rfl
  have hlen : p.bytes.length = s.pageIdSize.width + 4 + p.data.length := by
    rw [PageEntry.bytes, length_append, length_append, length_beBytes, length_idBytes, hsize]
  have hhead : s.cursor + (s.pageIdSize.width + 4) ≤ obj.length := by
    have := h.head
    simp only [rangeGet, length_take, length_drop] at this
    omega
  have hdata := rangeGet_end (congrArg List.length h.data).symm hhead
  rw [h.next]
  exact ⟨by rw [hlen]; simp only [add_assoc], hdata⟩

/-- A drained stream has returned as many pages as were announced, and all their bytes are in the object. -/
theorem drain_bytes (h : drain obj s = .ok ps) :
    ps.length = s.remaining ∧ (ps ≠ [] → s.cursor + (pagesBytes ps).length ≤ obj.length) := by
  induction ps generalizing s with
  | nil =>
    rcases drain_ok_cases h with ⟨h0, -⟩ | ⟨p, s', rest, -, -, hcons⟩
    · exact ⟨h0.symm, fun hne => absurd rfl hne⟩
    · cases hcons
  | cons p ps ih =>
    rcases drain_ok_cases h with ⟨-, hnil⟩ | ⟨q, s', rest, hy, hrest, hcons⟩
    · cases hnil
    cases hcons
    obtain ⟨hcount, hbytes⟩ := ih hrest
    obtain ⟨hcursor, hend⟩ := nextPage_cursor hy
    have hremaining : s'.remaining = s.remaining - 1 := by rw [hy.next]
    have hpending := hy.pending
    refine ⟨by rw [length_cons]; omega, fun _ => ?_⟩
    rw [pagesBytes_cons, length_append]
    by_cases hps : ps = []
    · subst hps
      simp only [pagesBytes_nil, length_nil]
      omega
    · have := hbytes hps
      omega

end

/-! ## Against the decoder -/

/-- **Ranged streaming equals decoding.** For every object in the wire layout, the header parsed from its first 48
    bytes and the pages of the drained stream are those the decoder returns. Cut anywhere in its page body, the object
    still has its header, and the stream returns an error; and whatever bytes it is opened on, a stream that is drained
    has returned as many pages as the header announces. -/
theorem stream_decodes (ph : Physical) (key : String) (cs : PhysicalChangeset) (hwf : cs.WellFormed ph.sha64) :
    ph.decode cs.wire = .ok cs ∧
      ∃ header, parseSourceHeader (rangeGet cs.wire 0 (headerV1Size + declaredField)) = .ok header ∧
        header = sourceHeaderOf cs ∧ drain cs.wire (.open key header) = .ok cs.pages ∧
        (∀ n, bodyOffset header ≤ n → n < bodyOffset header + (pagesBytes cs.pages).length →
          parseSourceHeader (rangeGet (cs.wire.take n) 0 (headerV1Size + declaredField)) = .ok header ∧
            ∃ e, drain (cs.wire.take n) (.open key header) = .error e) ∧
        ∀ obj pages, drain obj (.open key header) = .ok pages → pages.length = header.pageCount.toNat := by
  have hbody : bodyOffset (sourceHeaderOf cs) ≤ headerV1Size + declaredField := by
    unfold bodyOffset
    split <;> decide
  have hdrain : drain cs.wire (.open key (sourceHeaderOf cs)) = .ok cs.pages := by
    have h := openSourceStream_wire (PhysicalChangeset.wellFormed_iff.mp hwf).1 key
    unfold openSourceStream at h
    rw [readHeader_wire] at h
    rw [drain_eq]
    exact congrArg PageStream.drained (Except.ok.inj h)
  refine ⟨ph.decode_wire cs hwf, sourceHeaderOf cs, parseSourceHeader_take_wire cs hbody, rfl, hdrain, ?_, ?_⟩
  · intro n hn hcut
    refine ⟨?_, ?_⟩
    · rw [rangeGet, drop_zero, take_take]
      exact parseSourceHeader_take_wire cs (by omega)
    cases h : drain (cs.wire.take n) (.open key (sourceHeaderOf cs)) with
    | error e => exact ⟨e, rfl⟩
    | ok ps =>
      -- the same pages as of the whole object, whose bytes are not all there
      have hsame := drain_mono ( take_prefix n cs.wire) h
      rw [hdrain] at hsame
      cases hsame
      have hne : cs.pages ≠ [] := by
        intro hnil
        rw [hnil] at hcut
        simp only [pagesBytes_nil, length_nil] at hcut
        omega
      have hfit := (drain_bytes h).2 hne
      have hlen : (cs.wire.take n).length ≤ n := by
        rw [length_take]
        exact min_le_left _ _
      have hcursor : (StorageChangesetStream.open key (sourceHeaderOf cs)).cursor =
          bodyOffset (sourceHeaderOf cs) := rfl
      omega
  · intro obj pages h
    exact (drain_bytes h).1

/-- A page, and the empty marker of the page count. -/
def markedPages : List PageEntry := [⟨.u64 1, [1, 2, 3]⟩, ⟨.u64 9, []⟩]

/-- A compacted object with eight-byte ids. -/
def markedObject (ph : Physical) : PhysicalChangeset where
  header := ⟨0, .u64, 512, 7, 3, 2, 1000⟩
  declaredEndChecksum := some 5
  pages := markedPages
  checksum := computeChecksum ph.sha64 3 markedPages

/-- SHA-256 (first eight bytes) on what the object hashes. -/
def markedSha64 (bs : Bytes) : UInt64 :=
  if bs = beBytes 8 3 ++ pagesBytes markedPages then 0xc1ab4a69f415e8cb else 0

theorem stream_decodes_marked : ∃ ph : Physical, (markedObject ph).WellFormed ph.sha64 ∧
    drain (markedObject ph).wire (.open "k" (sourceHeaderOf (markedObject ph))) = .ok markedPages ∧
    ∃ e, drain ((markedObject ph).wire.take 60) (.open "k" (sourceHeaderOf (markedObject ph))) = .error e := by
  refine ⟨verifyingOf markedSha64, ?_⟩
  generalize verifyingOf markedSha64 = ph
  have hflags : (0 : UInt8) &&& flagCompacted = 0 := by decide
  have hsize : ∀ p ∈ markedPages, p.pageId.size = .u64 := by decide
  have hlen : ∀ p ∈ markedPages, p.data.length < 2 ^ 32 := by decide
  have hwf : (markedObject ph).WellFormed ph.sha64 :=
    ⟨hflags, show AscendingIds markedPages by decide, hsize, hlen, rfl, rfl⟩
  have hbody : 60 < 48 + (pagesBytes markedPages).length := by decide
  obtain ⟨-, header, -, rfl, hdrain, hcut, -⟩ := stream_decodes ph "k" (markedObject ph) hwf
  exact ⟨hwf, hdrain, (hcut 60 (show 48 ≤ 60 by decide) hbody).2⟩

end Compaction
end Walrust
