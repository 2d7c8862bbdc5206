import Walrust.Watch.ShadowSync

/-!
# `Walrust.Watch.Segments` — what the shadow publishes from its segments

The shadow watcher publishes nothing it has just read. It appends the frames of the WAL to segment files, and
encodes what it finds in the files behind a cursor of its own, which moves by the committed frames only.

* `shadowFrames_eq` — the frames behind the cursor, across files;
* `foldShadow_eq` — the committed part, and the open transaction apart;
* `shadow_publishes_read` — from the segments comes what a direct read of the WAL gives;
* `shadow_passes_compose` — two passes publish what one would;
* `cursor_leaves_published` — the cursor leaves a generation when all of it is published.
-/

namespace Walrust
namespace Watch

open Wal Sqlite Lib.Bytes List RawFrame

variable {ps : UInt32} {segments : List Bytes} {s rest : Bytes} {n : Nat}

/-! ## The frames of a generation -/

theorem length_framesFrom (hs : s.length = n * frameSize ps) : (framesFrom s ps 0).length = n := by
  rw [framesFrom, length_rawFrames, Nat.sub_zero, hs, Nat.mul_div_cancel _ (Generation.frameSize_pos ps)]

/-- Behind whole frames come the frames of the rest. -/
theorem framesFrom_append (hs : s.length = n * frameSize ps) :
    framesFrom (s ++ rest) ps 0 = framesFrom s ps 0 ++ framesFrom rest ps 0 := by
  have hpos := Generation.frameSize_pos ps
  have hsame : rawFrames ps.toNat n (s ++ rest) = rawFrames ps.toNat n s := by
    apply rawFrames_congr
    rw [← frameSize, ← hs, take_left, take_length]
  simp only [framesFrom, Nat.sub_zero, drop_zero, length_append, hs, Nat.mul_div_cancel _ hpos]
  rw [add_comm, Nat.add_mul_div_right _ _ hpos, add_comm, rawFrames_add, hsame, ← frameSize, ← hs, drop_left]

/-- Files of whole frames. -/
def Aligned (ps : UInt32) (segments : List Bytes) : Prop := ∀ s ∈ segments, frameSize ps ∣ s.length

/-- **The frames behind a cursor**, whatever files they lie in. -/
theorem shadowFrames_eq (h : Aligned ps segments) (k : Nat) :
    shadowFrames ps (k * frameSize ps) 0 segments = ((framesFrom segments.flatten ps 0).drop k).map parsed := by
  -- Over the files that are left, with the frames before them.
  suffices hfrom : ∀ start, shadowFrames ps (k * frameSize ps) (start * frameSize ps) segments =
      ((framesFrom segments.flatten ps 0).drop (k - start)).map parsed by simpa using hfrom 0
  induction segments with
  | nil => simp [shadowFrames, framesFrom, rawFrames]
  | cons s segments ih =>
    intro start
    have hpos := Generation.frameSize_pos ps
    obtain ⟨n, hn⟩ := h s mem_cons_self
    rw [mul_comm] at hn
    rw [flatten_cons, framesFrom_append hn, drop_append, length_framesFrom hn, map_append, Nat.sub_sub,
      ← ih (fun s hs => h s (mem_cons_of_mem _ hs)) (start + n), shadowFrames, hn, ← add_mul]
    split
    · next hle =>
      have hle := Nat.le_of_mul_le_mul_right hle hpos
      rw [drop_eq_nil_of_le (by rw [length_framesFrom hn]; omega)]
      rfl
    · simp only [framesFrom, rawFrames_drop, hn, Nat.sub_zero, ← Nat.sub_mul, Nat.mul_div_cancel _ hpos, drop_zero]
      rfl

/-! ## The fold -/

theorem foldl_insert_of_nodup {l : PageMap} (h : (l.map Prod.fst).Nodup) (m : PageMap) :
    l.foldl (fun m p => m.insert p.1 p.2) m = m.filter (fun e => e.1 ∉ l.map Prod.fst) ++ l := by
  induction l generalizing m with
  | nil => simp
  | cons p l ih =>
    obtain ⟨hp, hl⟩ := nodup_cons.mp h
    rw [foldl_cons, ih hl, PageMap.insert, filter_append, filter_filter, append_assoc]
    congr 1
    · apply filter_congr
      intro e _
      rw [map_cons]
      by_cases he : e.1 = p.1 <;> simp [he]
    · simp only [filter_cons, hp, not_false_eq_true, decide_true, if_true]
      rfl

/-- **The fold**: the pages of the committed frames, and those of the open transaction apart. -/
theorem foldShadow_eq (fs : List RawFrame) : foldShadow (fs.map parsed) =
    ⟨pageMapOf (committedPart fs), pageMapOf (fs.drop (committedPart fs).length),
      ((committedPart fs).getLast?.map dbSize).getD 0, (committedPart fs).length,
      fs.length - (committedPart fs).length⟩ := by
  induction fs using reverseRecOn with
  | nil => rfl
  | append_singleton fs f ih =>
    have hsplit := prefix_iff_eq_append.mp (committedPart_isPrefix fs)
    have hle := (committedPart_isPrefix fs).length_le
    have hfold : foldShadow ((fs ++ [f]).map parsed) = (foldShadow (fs.map parsed)).push f.parsed := by
      rw [map_append, foldShadow, foldl_append]
      rfl
    rw [hfold, ih, committedPart_concat, ShadowFold.push]
    simp only [parsed, ← pageMapOf_append_singleton]
    by_cases hcommit : f.dbSize ≠ 0
    · have hc : f.isCommit = true := decide_eq_true hcommit
      rw [if_pos hcommit, if_pos hc, foldl_insert_of_nodup (nodup_pageMapOf _), ← pageMapOf_append,
        ← append_assoc, hsplit]
      simp
      exact ⟨rfl, by omega⟩
    · have hc : ¬ f.isCommit = true := by simpa [isCommit] using hcommit
      rw [if_neg hcommit, if_neg hc, drop_append_of_le_length hle]
      simp
      omega

/-! ## One pass, and two -/

theorem framesFrom_shadowBytes {frames : List ParsedFrame} (h : ∀ f ∈ frames, f.data.length = ps.toNat) :
    (framesFrom (frames.flatMap ParsedFrame.shadowBytes) ps 0).map parsed = frames := by
  induction frames with
  | nil => simp [framesFrom, rawFrames]
  | cons f frames ih =>
    have hdata := h f mem_cons_self
    have hlen : (ParsedFrame.shadowBytes f).length = 1 * frameSize ps := by
      simp only [ParsedFrame.shadowBytes, length_append, length_beBytes, length_replicate, hdata, one_mul]
      rfl
    have hbody : (ParsedFrame.shadowBytes f).drop 24 = f.data := drop_left' (by simp)
    have hhead := @u32At_pairBytes [] (replicate 16 0 ++ f.data) (f.pageNumber, f.dbSize) 0 rfl
    rw [nil_append, pairBytes, ← append_assoc] at hhead
    obtain ⟨hpage, hsize⟩ : u32At (ParsedFrame.shadowBytes f) 0 = _ ∧ u32At (ParsedFrame.shadowBytes f) 4 = _ :=
      Prod.mk.inj hhead
    rw [flatMap_cons, framesFrom_append hlen, map_append, ih fun f hf => h f (mem_cons_of_mem _ hf), framesFrom, hlen,
      Nat.sub_zero, Nat.mul_div_cancel _ (Generation.frameSize_pos ps)]
    simp [rawFrames, parsed, pageNumber, dbSize, u32At_take, frameHeaderSize, hpage, hsize, hbody, ← hdata]

theorem body_of_committedBatch {hs : Option HeaderSeed} {file : Bytes} {start : Nat} {chain : Option Chain}
    {f : RawFrame} (hf : f ∈ committedBatch hs file ps start chain) : f.body.length = ps.toNat := by
  obtain ⟨hraw, hcount⟩ := @committedBatch_eq_rawFrames file chain hs ps start
  rw [hraw, rawFrames_eq_map] at hf
  obtain ⟨i, hi, rfl⟩ := mem_map.mp hf
  have hend := (Nat.mul_le_mul_right (frameSize ps) ((mem_range.mp hi).trans_le hcount)).trans (Nat.div_mul_le_self _ _)
  rw [Nat.succ_mul, frameSize] at hend
  simp only [length_take, length_drop]
  omega

/-- **The shadow publishes what a direct read gives.** What a read of the WAL returns is appended to the files, behind
    `k` frames; a pass from there folds it to the page map of the direct reader, with its size and frame count. -/
theorem shadow_publishes_read (file before : Bytes) (ps : UInt32) (offset k : Nat) (chain : Option Chain)
    (segments : List Bytes) (r : PagesRead) (hbefore : before.length = k * frameSize ps) (h : Aligned ps segments)
    (hr : readFramesAsPagesChecked file file ps offset chain = .ok r)
    (happend : segments.flatten = before ++ r.frames.flatMap ParsedFrame.shadowBytes) :
    ∃ m, readFramesAsPageMapChecked file file ps offset chain = .ok m ∧
      foldShadow (shadowFrames ps (k * frameSize ps) 0 segments) =
        ⟨m.pageMap, [], m.finalDbSize, m.frameCount, 0⟩ := by
  rw [readFramesAsPagesChecked_eq] at hr
  rw [readFramesAsPageMapChecked_eq]
  cases hseed : headerSeed file with
  | error e =>
    rw [hseed] at hr
    cases hr
  | ok hs =>
  rw [hseed] at hr
  simp only [pagesBatch_eq, batchRead_eq] at hr ⊢
  cases hr
  have hself : committedPart (committedBatch hs file ps (startPos offset) chain) =
      committedBatch hs file ps (startPos offset) chain := rdropWhile_idempotent _ _
  refine ⟨_, rfl, ?_⟩
  rw [shadowFrames_eq h, happend, framesFrom_append hbefore, drop_left' (length_framesFrom hbefore),
    framesFrom_shadowBytes (forall_mem_map.mpr fun f hf => body_of_committedBatch hf), foldShadow_eq, hself,
    drop_length, Nat.sub_self]
  rfl

/-- Two commits, copied behind a frame that was published before; the second lies in a file of its own. -/
theorem shadow_publishes_fillTwo : ∃ segments m, segments.map List.length = [2 * frameSize 512, frameSize 512] ∧
    readFramesAsPageMapChecked (fillTwo [7, 8]).bytes (fillTwo [7, 8]).bytes 512 0 none = .ok m ∧ m.frameCount = 2 ∧
      foldShadow (shadowFrames 512 (1 * frameSize 512) 0 segments) =
        ⟨m.pageMap, [], m.finalDbSize, m.frameCount, 0⟩ := by
  have hr := @readFramesAsPagesChecked_eq (fillTwo [7, 8]).bytes none 512 0
  rw [headerSeed_fillTwo] at hr
  obtain ⟨r, hr, hlen⟩ : ∃ r, readFramesAsPagesChecked (fillTwo [7, 8]).bytes (fillTwo [7, 8]).bytes 512 0 none = .ok r ∧
      (ParsedFrame.shadowBytes ⟨1, 1, replicate 512 9⟩ ++ r.frames.flatMap ParsedFrame.shadowBytes).length =
        3 * frameSize 512 :=
    ⟨_, hr, by decide +kernel⟩
  have hcount : (readFramesAsPageMapChecked (fillTwo [7, 8]).bytes (fillTwo [7, 8]).bytes 512 0 none).toOption.map
      (·.frameCount) = some 2 := by decide +kernel
  have hfiles := take_append_drop (2 * frameSize 512) (ParsedFrame.shadowBytes ⟨1, 1, replicate 512 9⟩ ++
    r.frames.flatMap ParsedFrame.shadowBytes)
  generalize hfirst : take _ _ = first at hfiles
  generalize hsecond : drop _ _ = second at hfiles
  have hlengths : first.length = 2 * frameSize 512 ∧ second.length = 1 * frameSize 512 := by
    rw [← hfirst, ← hsecond, length_take, length_drop, hlen]
    decide
  obtain ⟨m, hm, hfold⟩ := shadow_publishes_read _ (ParsedFrame.shadowBytes ⟨1, 1, replicate 512 9⟩) 512 0 1
    none [first, second] r (by decide +kernel)
    (by simp [Aligned, hlengths.1, hlengths.2]) hr
    (by rw [flatten_cons, flatten_singleton, hfiles])
  rw [hm] at hcount
  exact ⟨_, m, by simp [hlengths.1, hlengths.2], hm, Option.some.inj hcount, hfold⟩

/-- **Two passes publish what one would.** Between them the files get more frames; the second pass starts behind the
    committed frames of the first. -/
theorem shadow_passes_compose (ps : UInt32) (segments segments' : List Bytes) (h : Aligned ps segments)
    (h' : Aligned ps segments') (hmore : framesFrom segments.flatten ps 0 <+: framesFrom segments'.flatten ps 0)
    (k : Nat) :
    let first := foldShadow (shadowFrames ps (k * frameSize ps) 0 segments)
    let next := foldShadow (shadowFrames ps ((k + first.committedFrameCount) * frameSize ps) 0 segments')
    foldShadow (shadowFrames ps (k * frameSize ps) 0 segments') =
      { pageMap := first.pageMap.filter (fun e => e.1 ∉ next.pageMap.map Prod.fst) ++ next.pageMap
        pendingPageMap := next.pendingPageMap
        finalDbSize := if next.committedFrameCount = 0 then first.finalDbSize else next.finalDbSize
        committedFrameCount := first.committedFrameCount + next.committedFrameCount
        pendingFrameCount := next.pendingFrameCount } := by
  intro first next
  have hpre : committedPart ((framesFrom segments.flatten ps 0).drop k) <+:
      (framesFrom segments'.flatten ps 0).drop k := by
    obtain ⟨more, hmore⟩ := hmore
    rw [← hmore, drop_append]
    exact (committedPart_isPrefix _).trans (prefix_append _ _)
  have hends := endsInCommit_committedPart ((framesFrom segments.flatten ps 0).drop k)
  have hsplit := prefix_iff_eq_append.mp hpre
  simp only [first, next, shadowFrames_eq h, shadowFrames_eq h', foldShadow_eq]
  generalize committedPart ((framesFrom segments.flatten ps 0).drop k) = a at hends hsplit ⊢
  rw [← hsplit, drop_drop, committedPart_append hends, pageMapOf_append, finalDbSize_append]
  simp only [length_append, drop_length_add_append, Nat.add_sub_add_left, length_eq_zero_iff]

/-- A file with a commit and the first page of a transaction. -/
def openFile : Bytes :=
  ParsedFrame.shadowBytes ⟨1, 1, replicate 512 7⟩ ++ ParsedFrame.shadowBytes ⟨2, 0, replicate 512 8⟩

/-- The file with the commit of that transaction. -/
def closeFile : Bytes := ParsedFrame.shadowBytes ⟨1, 2, replicate 512 9⟩

theorem length_openFile : openFile.length = 2 * frameSize 512 := by decide +kernel

theorem aligned_openFile : Aligned 512 [openFile] ∧ Aligned 512 [openFile, closeFile] := by
  have hclose : closeFile.length = 1 * frameSize 512 := by decide +kernel
  simp [Aligned, length_openFile, hclose]

theorem openFile_grows :
    framesFrom [openFile].flatten 512 0 <+: framesFrom [openFile, closeFile].flatten 512 0 := by
  simp only [flatten_cons, flatten_nil, append_nil, framesFrom_append length_openFile]
  exact prefix_append _ _

theorem foldShadow_openFile : foldShadow (shadowFrames 512 (0 * frameSize 512) 0 [openFile]) =
    ⟨[(1, replicate 512 7)], [(2, replicate 512 8)], 1, 1, 1⟩ := by decide +kernel

theorem foldShadow_closeFile : foldShadow (shadowFrames 512 ((0 + 1) * frameSize 512) 0 [openFile, closeFile]) =
    ⟨[(2, replicate 512 8), (1, replicate 512 9)], [], 2, 2, 0⟩ := by decide +kernel

/-- The first pass leaves a transaction open, the second finds its commit. -/
theorem shadow_passes_open : foldShadow (shadowFrames 512 (0 * frameSize 512) 0 [openFile, closeFile]) =
    ⟨[(2, replicate 512 8), (1, replicate 512 9)], [], 2, 3, 0⟩ := by
  rw [shadow_passes_compose 512 _ _ aligned_openFile.1 aligned_openFile.2 openFile_grows 0, foldShadow_openFile,
    foldShadow_closeFile]
  decide +kernel

/-! ## The cursor -/

/-- What is published of a generation: the frames behind the cursor, and the page map that the passes made of them. -/
inductive Published (ps : UInt32) : List Bytes → Nat → PageMap → Prop
  | start : Published ps [] 0 []
  /-- Frames are copied to the files. -/
  | copy {segments segments' : List Bytes} {k : Nat} {m : PageMap} : Published ps segments k m → Aligned ps segments' →
      framesFrom segments.flatten ps 0 <+: framesFrom segments'.flatten ps 0 → Published ps segments' k m
  /-- A pass from the cursor. -/
  | pass {segments : List Bytes} {k : Nat} {m : PageMap} {fold : ShadowFold} : Published ps segments k m →
      foldShadow (shadowFrames ps (k * frameSize ps) 0 segments) = fold →
      Published ps segments (k + fold.committedFrameCount) (fold.pageMap.foldl (fun m p => m.insert p.1 p.2) m)

/-- The page map is that of the frames behind the cursor. -/
theorem Published.run {k : Nat} {m : PageMap} (h : Published ps segments k m) : Aligned ps segments ∧
    ∃ run, run <+: framesFrom segments.flatten ps 0 ∧ run.length = k ∧ m = pageMapOf run := by
  induction h with
  | start => exact ⟨nofun, [], nil_prefix, rfl, rfl⟩
  | copy _ halign hmore ih =>
    obtain ⟨-, run, hrun, hk, hm⟩ := ih
    exact ⟨halign, run, hrun.trans hmore, hk, hm⟩
  | pass _ hfold ih =>
    obtain ⟨halign, run, ⟨rest, hrest⟩, rfl, rfl⟩ := ih
    rw [shadowFrames_eq halign, ← hrest, drop_left, foldShadow_eq] at hfold
    rw [← hfold]
    refine ⟨halign, run ++ committedPart rest, ?_, length_append, ?_⟩
    · rw [← hrest]
      exact (prefix_append_right_inj run).mpr (committedPart_isPrefix rest)
    · rw [foldl_insert_of_nodup (nodup_pageMapOf _), pageMapOf_append]

theorem advanceCursor_drained {files : Lib.Store (Nat × Nat) Bytes} {rounds : Nat} {st st' : ShadowWatchState}
    (h : advanceCursor files ps rounds st = .ok st') :
    (∀ g, st.shadowSyncGeneration ≤ g → g < st'.shadowSyncGeneration →
      ((listSegments files g).map length).sum ≤ if g = st.shadowSyncGeneration then st.shadowSyncOffset else 0) ∧
    (st'.shadowSyncGeneration < st.shadowSyncGeneration + rounds →
      st'.shadowSyncOffset < ((listSegments files st'.shadowSyncGeneration).map length).sum) := by
  induction rounds generalizing st with
  | zero =>
    cases h
    exact ⟨fun g hle hlt => absurd hlt (Nat.not_lt.mpr hle), (absurd · (lt_irrefl _))⟩
  | succ rounds ih =>
    simp only [advanceCursor] at h
    split at h
    · next hunread =>
      cases h
      exact ⟨fun g hle hlt => absurd hlt (Nat.not_lt.mpr hle), fun _ => hunread⟩
    next hread =>
    -- Where the cursor goes on, it enters the next generation at its start.
    have hnext : advanceCursor files ps rounds
        { st with shadowSyncGeneration := st.shadowSyncGeneration + 1, shadowSyncOffset := 0 } = .ok st' := by
      split at h
      · split at h
        · cases h
        split at h
        · cases h
        exact h
      · exact h
    obtain ⟨hleft, hstop⟩ := ih hnext
    refine ⟨fun g hle hlt => ?_, fun hlt => hstop ?_⟩
    · split
      · next heq =>
        rw [heq]
        exact Nat.le_of_not_lt hread
      · next hne =>
        refine (hleft g (Nat.lt_of_le_of_ne hle (Ne.symm hne)) hlt).trans ?_
        split <;> exact le_rfl
    · rwa [Nat.add_right_comm]

/-- **The cursor leaves a generation when all of it is published**, however copies and passes took turns; the
    generations it passes over are empty, and before the live one it stops only where bytes are unread. -/
theorem cursor_leaves_published (files : Lib.Store (Nat × Nat) Bytes) (ps : UInt32) (rounds k : Nat) (m : PageMap)
    (st st' : ShadowWatchState) (hpublished : Published ps (listSegments files st.shadowSyncGeneration) k m)
    (hoffset : st.shadowSyncOffset = k * frameSize ps) (h : advanceCursor files ps rounds st = .ok st') :
    (st.shadowSyncGeneration < st'.shadowSyncGeneration →
      m = pageMapOf (framesFrom (listSegments files st.shadowSyncGeneration).flatten ps 0)) ∧
    (∀ g, st.shadowSyncGeneration < g → g < st'.shadowSyncGeneration → (listSegments files g).flatten = []) ∧
    (st'.shadowSyncGeneration < st.shadowSyncGeneration + rounds →
      st'.shadowSyncOffset < (listSegments files st'.shadowSyncGeneration).flatten.length) := by
  obtain ⟨hdrained, hstop⟩ := advanceCursor_drained h
  simp only [← length_flatten] at hdrained hstop
  obtain ⟨-, run, hrun, hlen, rfl⟩ := hpublished.run
  refine ⟨fun hlt => ?_, fun g hlt hlt' => ?_, hstop⟩
  · have hsize := hdrained _ le_rfl hlt
    rw [if_pos rfl, hoffset, ← hlen] at hsize
    have hframes : (framesFrom (listSegments files st.shadowSyncGeneration).flatten ps 0).length ≤ run.length := by
      rw [framesFrom, length_rawFrames, Nat.sub_zero]
      exact Nat.div_le_of_le_mul (by rwa [mul_comm])
    rw [hrun.eq_of_length_le hframes]
  · have hsize := hdrained g hlt.le hlt'
    rw [if_neg hlt.ne'] at hsize
    exact length_eq_zero_iff.mp (Nat.le_zero.mp hsize)

/-- Generation 3 with the two files. -/
def twoFiles : Lib.Store (Nat × Nat) Bytes := (Lib.Store.empty.put (3, 0) openFile).put (3, 1) closeFile

theorem listSegments_twoFiles : listSegments twoFiles 3 = [openFile, closeFile] ∧ listSegments twoFiles 4 = [] := by
  constructor
  · rw [listSegments, mergeSort_of_pairwise]
    · rfl
    · exact pairwise_pair.mpr rfl
  · rw [listSegments, mergeSort_of_pairwise]
    · rfl
    · exact .nil

/-- Two passes over generation 3, the first with a transaction open; generation 4 is empty and 5 the live one. -/
theorem cursor_leaves_twoFiles : ∃ (st st' : ShadowWatchState) (m : PageMap),
    advanceCursor twoFiles 512 2 st = .ok st' ∧ st.shadowSyncGeneration = 3 ∧ st'.shadowSyncGeneration = 5 ∧
      m = [(2, replicate 512 8), (1, replicate 512 9)] ∧
      m = pageMapOf (framesFrom (listSegments twoFiles 3).flatten 512 0) := by
  obtain ⟨hthree, hfour⟩ := listSegments_twoFiles
  have hpublished : Published 512 (listSegments twoFiles 3) 3 [(2, replicate 512 8), (1, replicate 512 9)] := by
    rw [hthree]
    exact .pass (.copy (.pass (.copy .start aligned_openFile.1 (by simp [framesFrom, rawFrames])) foldShadow_openFile)
      aligned_openFile.2 openFile_grows) foldShadow_closeFile
  have hsize : openFile.length + closeFile.length ≤ 3 * frameSize 512 := by decide +kernel
  have hlast : lastFrameDbSize 512 [openFile, closeFile] = .ok (some 2) := by decide +kernel
  have hmoves : advanceCursor twoFiles 512 2 ⟨"app", 2, none, 3, 3 * frameSize 512, 0⟩ =
      .ok ⟨"app", 2, none, 5, 0, 0⟩ := by
    simp [advanceCursor, hthree, hfour, hsize, hlast]
  exact ⟨_, _, _, hmoves, rfl, rfl, rfl,
    (cursor_leaves_published twoFiles 512 2 3 _ _ _ hpublished rfl hmoves).1 (by decide)⟩

end Watch
end Walrust
