import Walrust.Wal.Reader

/-!
# `Walrust.Wal.Race` — checked reads of a WAL that is appended to and reset meanwhile

SQLite writes the WAL in place: a reset writes a new header over the old one and the frames of the new
generation over the old frames, from the first slot on, each frame as a header and a body. The readers of
`Walrust.Wal.Reader` take no lock, so each of their file accesses can fall anywhere between these writes.

* `Write` — the writes, over the generations of the database's life; `Mixed` is what they keep: every readable
  header and every readable body is one that some generation wrote at that slot;
* `NoCollision` — the cumulative checksum tells the generations apart;
* `validatePass_one` — pass 1 accepts frames of one generation only: the salt decides which, the chain that
  nothing was mixed;
* `checked_reads_one_generation` — what either reader returns.
-/

namespace Walrust
namespace Wal

open Lib.File Sqlite List Except

variable {i : Nat} {pageSize : UInt32}

/-! ## The writer -/

/-- One generation of the WAL, with all the frames that are ever appended to it, committed or not. -/
structure LogGen (pageSize : UInt32) where
  salt : Salt
  checkpointSeq : UInt32
  bigEndian : Bool
  frames : List Frame
  dataLen : ∀ f ∈ frames, f.data.length = pageSize.toNat
  pageSizePos : 0 < pageSize.toNat

namespace LogGen

variable (g : LogGen pageSize)

/-- The generation before its first frame. -/
def base : Generation pageSize := ⟨g.salt, g.checkpointSeq, g.bigEndian, [], []⟩

/-- The 32 bytes of the WAL header. -/
def header : Bytes := g.base.bytes

def raws : List RawFrame := rawChain g.bigEndian g.salt g.base.seed g.frames

/-- The cumulative checksum of the first `i` frames. -/
def chainAt (i : Nat) : Chain := sumChain g.bigEndian g.base.seed (g.frames.take i)

end LogGen

/-- The WAL file, and how far the writer has come: `started` generations, of the last of them `written` whole
    frames, and with `half` the header of the next. -/
structure LogState where
  file : Bytes
  started : Nat
  written : Nat
  half : Bool
  /-- A truncated log takes no frames before the next reset. -/
  live : Bool

def slot (pageSize : UInt32) (i : Nat) : Nat := walHeaderSize + i * frameSize pageSize

section Writer

variable (gens : List (LogGen pageSize))

/-- One write to the WAL file, in a life of the database that goes through the generations `gens`. -/
inductive Write : LogState → LogState → Prop where
  /-- A reset: the header of the next generation over a file that may have been cut. -/
  | reset {l : LogState} {g : LogGen pageSize} (keep : Nat) : gens[l.started]? = some g →
      Write l ⟨writeAt (l.file.take keep) 0 g.header, l.started + 1, 0, false, true⟩
  | truncate {l : LogState} (keep : Nat) : Write l { l with file := l.file.take keep, live := false }
  | frameHeader {l : LogState} {g : LogGen pageSize} {raw : RawFrame} {n : Nat} : l.live = true → l.half = false →
      l.started = n + 1 → gens[n]? = some g → g.raws[l.written]? = some raw →
      Write l { l with file := writeAt l.file (slot pageSize l.written) raw.header, half := true }
  | frameBody {l : LogState} {g : LogGen pageSize} {raw : RawFrame} {n : Nat} : l.live = true → l.half = true →
      l.started = n + 1 → gens[n]? = some g → g.raws[l.written]? = some raw →
      Write l { l with file := writeAt l.file (slot pageSize l.written + frameHeaderSize) raw.body,
                       written := l.written + 1, half := false }

/-- The states of the WAL file over the life of the database. -/
def Reachable (l : LogState) : Prop := Relation.ReflTransGen (Write gens) ⟨[], 0, 0, false, false⟩ l

/-- What can be read of the file was written by some generation, at the place where it is read. -/
structure Mixed (file : Bytes) : Prop where
  header : walHeaderSize ≤ file.length → ∃ g ∈ gens, file.take walHeaderSize = g.header
  frameHeader : ∀ i, slot pageSize i + frameHeaderSize ≤ file.length →
    ∃ g ∈ gens, ∃ raw, g.raws[i]? = some raw ∧
      (file.drop (slot pageSize i)).take frameHeaderSize = raw.header
  frameBody : ∀ i, slot pageSize i + frameSize pageSize ≤ file.length →
    ∃ g ∈ gens, ∃ raw, g.raws[i]? = some raw ∧
      (file.drop (slot pageSize i + frameHeaderSize)).take pageSize.toNat = raw.body

end Writer

theorem slot_succ (i : Nat) : slot pageSize (i + 1) = slot pageSize i + frameSize pageSize := by
  rw [slot, slot, Nat.succ_mul, add_assoc]

theorem slot_le {i j : Nat} (h : i < j) : slot pageSize i + frameSize pageSize ≤ slot pageSize j := by
  rw [← slot_succ]
  exact Nat.add_le_add_left (Nat.mul_le_mul_right _ h) _

theorem slot_add {k n : Nat} : slot pageSize k + n * frameSize pageSize = slot pageSize (k + n) := by
  rw [slot, slot, add_mul, add_assoc]

theorem header_le_slot (i : Nat) : walHeaderSize ≤ slot pageSize i := Nat.le_add_right _ _

namespace LogGen

variable (g : LogGen pageSize)

theorem length_header : g.header.length = walHeaderSize := by
  rfl

theorem raws_getElem? (i : Nat) :
    g.raws[i]? = g.frames[i]?.map fun f => f.raw g.bigEndian g.salt (g.chainAt i) := by
  have h : ∀ (fs : List Frame) (seed : Chain) (i : Nat), (rawChain g.bigEndian g.salt seed fs)[i]? =
      fs[i]?.map fun f => f.raw g.bigEndian g.salt (sumChain g.bigEndian seed (fs.take i)) := by
    intro fs
    induction fs with
    | nil => intro seed i; simp
    | cons f fs ih =>
      intro seed i
      cases i with
      | zero => rfl
      | succ i => exact ih _ i
  exact h g.frames g.base.seed i

theorem chainAt_zero : g.chainAt 0 = g.base.seed := by
  rfl

variable {g}

/-- What is on disk at slot `i` says: the generation's salt, and the checksum up to there. -/
theorem raw_fields {raw : RawFrame} (h : g.raws[i]? = some raw) :
    raw.salt = g.salt ∧ raw.stored = g.chainAt (i + 1) ∧ raw.header.length = frameHeaderSize ∧
      raw.body.length = pageSize.toNat ∧ i < g.frames.length := by
  rw [raws_getElem?] at h
  obtain ⟨f, hf, rfl⟩ := Option.map_eq_some_iff.mp h
  have hlt : i < g.frames.length := (List.getElem?_eq_some_iff.mp hf).1
  refine ⟨raw_salt _ _ _ _, ?_, length_raw_header _ _ _ _, g.dataLen f (mem_of_getElem? hf), hlt⟩
  have htake : g.frames.take (i + 1) = g.frames.take i ++ [f] := by
    rw [take_add_one, hf]
    rfl
  rw [raw_stored, chainAt, chainAt, htake, sumChain, sumChain, foldl_append]
  rfl

end LogGen

/-! ## What the writes keep -/

section Keep

variable {gens : List (LogGen pageSize)} {file : Bytes}

/-- The invariant of the writes: `Mixed`, and no hole behind the frames already written. -/
structure LogState.Ok (gens : List (LogGen pageSize)) (l : LogState) : Prop where
  mixed : Mixed gens l.file
  reach : l.live = true → slot pageSize l.written + (if l.half then frameHeaderSize else 0) ≤ l.file.length

theorem mixed_iff : Mixed gens file ↔
    PartIs file 0 walHeaderSize (fun bytes => ∃ g ∈ gens, bytes = g.header) ∧
    (∀ i, PartIs file (slot pageSize i) frameHeaderSize
      fun bytes => ∃ g ∈ gens, ∃ raw, g.raws[i]? = some raw ∧ bytes = raw.header) ∧
    ∀ i, PartIs file (slot pageSize i + frameHeaderSize) pageSize.toNat
      fun bytes => ∃ g ∈ gens, ∃ raw, g.raws[i]? = some raw ∧ bytes = raw.body := by
  simp only [PartIs, add_assoc]
  exact ⟨fun h => ⟨h.header, h.frameHeader, h.frameBody⟩, fun h => ⟨h.1, h.2.1, h.2.2⟩⟩

theorem Mixed.cut (h : Mixed gens file) (keep : Nat) : Mixed gens (file.take keep) := by
  obtain ⟨hheader, hheaders, hbodies⟩ := mixed_iff.mp h
  exact mixed_iff.mpr ⟨hheader.take keep, fun i => (hheaders i).take keep, fun i => (hbodies i).take keep⟩

/-- A reset: the header changes, everything behind it stays. -/
theorem Mixed.reset {file : Bytes} (h : Mixed gens file) {g : LogGen pageSize} (hg : g ∈ gens) :
    Mixed gens (writeAt file 0 g.header) := by
  obtain ⟨hheader, hheaders, hbodies⟩ := mixed_iff.mp h
  have hlen := g.length_header
  have hpos : 0 < g.header.length := by rw [hlen]; decide
  refine mixed_iff.mpr ⟨?_, fun i => ?_, fun i => ?_⟩
  · exact hheader.writeAt hpos (Nat.zero_le _) (.inr ⟨rfl, hlen, g, hg, rfl⟩)
  all_goals have := @header_le_slot pageSize i
  · exact (hheaders i).writeAt hpos (Nat.zero_le _) (.inl ⟨by decide, by omega⟩)
  · exact (hbodies i).writeAt hpos (Nat.zero_le _) (.inl ⟨g.pageSizePos, by omega⟩)

/-- Where slot `i` lies, seen from slot `n`. -/
theorem slot_apart (i n : Nat) : slot pageSize i + frameSize pageSize ≤ slot pageSize n ∨
    i = n ∧ slot pageSize i = slot pageSize n ∨ slot pageSize n + frameSize pageSize ≤ slot pageSize i := by
  rcases lt_trichotomy i n with hlt | rfl | hgt
  · exact .inl (slot_le hlt)
  · exact .inr (.inl ⟨rfl, rfl⟩)
  · exact .inr (.inr (slot_le hgt))

/-- The header or the body of a frame, written at its place in slot `n`. -/
theorem Mixed.writeFrame {data : Bytes} (h : Mixed gens file) {g : LogGen pageSize} (hg : g ∈ gens)
    {n off : Nat} {raw : RawFrame} (hraw : g.raws[n]? = some raw)
    (hpart : off = slot pageSize n ∧ data = raw.header ∨
      off = slot pageSize n + frameHeaderSize ∧ data = raw.body) (hreach : off ≤ file.length) :
    Mixed gens (writeAt file off data) := by
  obtain ⟨hheader, hheaders, hbodies⟩ := mixed_iff.mp h
  obtain ⟨-, -, hhead, hbody, -⟩ := LogGen.raw_fields hraw
  have hsize := g.pageSizePos
  have hfirst := @header_le_slot pageSize n
  have hother := fun i => @slot_apart pageSize i n
  simp only [frameSize, frameHeaderSize] at hhead hpart hother
  have hpos : 0 < data.length := by rcases hpart with ⟨-, rfl⟩ | ⟨-, rfl⟩ <;> omega
  refine mixed_iff.mpr ⟨?_, fun i => ?_, fun i => ?_⟩
  · exact hheader.writeAt hpos hreach (.inl ⟨by decide, by omega⟩)
  · refine (hheaders i).writeAt hpos hreach ?_
    specialize hother i
    rcases hpart with ⟨rfl, rfl⟩ | ⟨rfl, rfl⟩
    · by_cases hin : i = n
      · subst hin
        exact .inr ⟨rfl, hhead, g, hg, raw, hraw, rfl⟩
      · exact .inl ⟨by decide, by rw [frameHeaderSize]; omega⟩
    · exact .inl ⟨by decide, by rw [frameHeaderSize]; omega⟩
  · refine (hbodies i).writeAt hpos hreach ?_
    specialize hother i
    rcases hpart with ⟨rfl, rfl⟩ | ⟨rfl, rfl⟩
    · exact .inl ⟨hsize, by rw [frameHeaderSize]; omega⟩
    · by_cases hin : i = n
      · subst hin
        exact .inr ⟨rfl, hbody, g, hg, raw, hraw, rfl⟩
      · exact .inl ⟨hsize, by rw [frameHeaderSize]; omega⟩

theorem ok_write {l l' : LogState} (h : Write gens l l') (hok : l.Ok gens) : l'.Ok gens := by
  have hframe : frameSize pageSize = frameHeaderSize + pageSize.toNat := rfl
  cases h with
  | @reset g keep hg =>
    have hmem := mem_of_getElem? hg
    refine ⟨(hok.mixed.cut keep).reset hmem, ?_⟩
    intro _
    have hheader := g.length_header
    have hlen := length_writeAt (l.file.take keep) 0 (ne_nil_of_length_pos (by rw [hheader]; decide))
    have hslot : slot pageSize 0 = walHeaderSize := by rw [slot, Nat.zero_mul, add_zero]
    show slot pageSize 0 + 0 ≤ (writeAt (l.file.take keep) 0 g.header).length
    omega
  | truncate keep => exact ⟨hok.mixed.cut keep, fun h => by cases h⟩
  | @frameHeader g raw n hlive hhalf _ hg hraw =>
    have hreach := hok.reach hlive
    rw [hhalf] at hreach
    refine ⟨hok.mixed.writeFrame (mem_of_getElem? hg) hraw (.inl ⟨rfl, rfl⟩) hreach, ?_⟩
    intro _
    obtain ⟨-, -, hheader, -, -⟩ := LogGen.raw_fields hraw
    have hlen := length_writeAt l.file (slot pageSize l.written)
      (ne_nil_of_length_pos (by rw [hheader]; decide))
    show slot pageSize l.written + frameHeaderSize ≤ (writeAt l.file _ raw.header).length
    omega
  | @frameBody g raw n hlive hhalf _ hg hraw =>
    have hreach := hok.reach hlive
    rw [hhalf] at hreach
    refine ⟨hok.mixed.writeFrame (mem_of_getElem? hg) hraw (.inr ⟨rfl, rfl⟩) hreach, ?_⟩
    intro _
    obtain ⟨-, -, -, hbody, -⟩ := LogGen.raw_fields hraw
    have hlen := length_writeAt l.file (slot pageSize l.written + frameHeaderSize)
      (ne_nil_of_length_pos (by rw [hbody]; exact g.pageSizePos))
    show slot pageSize (l.written + 1) + 0 ≤ (writeAt l.file _ raw.body).length
    rw [slot_succ]
    omega

/-- Every state of the WAL file is mixed of the generations' own writes. -/
theorem mixed_of_reachable {l : LogState} (h : Reachable gens l) : Mixed gens l.file := by
  have hok : l.Ok gens := by
    induction h with
    | refl =>
      refine ⟨⟨fun h => absurd h (by decide), fun i h => ?_, fun i h => ?_⟩, fun h => by cases h⟩
      · have := @header_le_slot pageSize i
        rw [length_nil, frameHeaderSize] at h
        omega
      · have := @header_le_slot pageSize i
        rw [walHeaderSize] at this
        rw [length_nil] at h
        omega
    | tail _ hwrite ih => exact ok_write hwrite ih
  exact hok.mixed

end Keep

/-! ## The readers -/

section Readers

variable {gens : List (LogGen pageSize)}

variable {k : Nat} {s : Sight} {reads : List (Except String RawFrame)}

/-- The cumulative checksum tells the generations apart: the checksum of the first `i` frames of `C`, continued
    with the header of `A` and the body of `B` at slot `i`, is the one `A` has there only if `A` is `C` and the
    body is `A`'s own. -/
def NoCollision (gens : List (LogGen pageSize)) : Prop :=
  ∀ G ∈ gens, ∀ A ∈ gens, ∀ B ∈ gens, ∀ C ∈ gens, ∀ i a b, A.raws[i]? = some a → B.raws[i]? = some b →
    i ≤ C.frames.length → RawFrame.running G.bigEndian (C.chainAt i) ⟨a.header, b.body⟩ = A.chainAt (i + 1) →
    A = C ∧ b.body = a.body

/-- A frame as it can be read at slot `i`. -/
def SlotRead (gens : List (LogGen pageSize)) (i : Nat) (r : Except String RawFrame) : Prop :=
  ∀ f, r = .ok f → ∃ A ∈ gens, ∃ B ∈ gens, ∃ a b, A.raws[i]? = some a ∧ B.raws[i]? = some b ∧
    f = ⟨a.header, b.body⟩

theorem slotRead_frameAt (hs : ∀ a, Mixed gens (s a)) {second : Bool} :
    SlotRead gens (k + i) (frameAt s second pageSize (slot pageSize k) i) := by
  intro f hf
  rw [frameAt, slot_add] at hf
  unfold readExact at hf
  split at hf
  · next header body hheader hbody =>
    split at hheader
    swap
    · cases hheader
    next h1 =>
    split at hbody
    swap
    · cases hbody
    next h2 =>
    obtain ⟨A, hA, a, ha, ha'⟩ := (hs (.frameHeader second i)).frameHeader (k + i) h1
    obtain ⟨B, hB, b, hb, hb'⟩ := (hs (.frameBody second i)).frameBody (k + i) (by rw [frameSize]; omega)
    cases hheader
    cases hbody
    rw [ha', hb'] at hf
    exact ⟨A, hA, B, hB, a, b, ha, hb, (ok.inj hf).symm⟩
  · cases hf
  · cases hf

theorem slotRead_framesAt (hs : ∀ a, Mixed gens (s a)) {second : Bool} {n : Nat} {r : Except String RawFrame}
    (h : (framesAt s second pageSize (slot pageSize k) n)[i]? = some r) : SlotRead gens (k + i) r := by
  rw [framesAt, List.getElem?_map] at h
  obtain ⟨j, hj, rfl⟩ := Option.map_eq_some_iff.mp h
  obtain rfl : i = j := by
    have := List.getElem?_eq_some_iff.mp hj
    simpa using this.2
  exact slotRead_frameAt hs

/-- A frame that continues the checksum of `C` is `C`'s own. -/
theorem frame_of_verified (hfree : NoCollision gens) {G C : LogGen pageSize} (hG : G ∈ gens) (hC : C ∈ gens)
    (hi : i ≤ C.frames.length) {f : RawFrame} (hf : SlotRead gens i (.ok f))
    (hv : f.running G.bigEndian (C.chainAt i) = f.stored) :
    C.raws[i]? = some f ∧ f.stored = C.chainAt (i + 1) := by
  obtain ⟨A, hA, B, hB, a, b, ha, hb, rfl⟩ := hf f rfl
  obtain ⟨-, hstored, -, -, -⟩ := LogGen.raw_fields ha
  have hst : RawFrame.stored ⟨a.header, b.body⟩ = A.chainAt (i + 1) := hstored
  rw [hst] at hv ⊢
  obtain ⟨rfl, hbody⟩ := hfree G hG A hA B hB C hC i a b ha hb hi hv
  rw [hbody]
  exact ⟨ha, rfl⟩

/-- **Pass 1 reads one generation.** What it accepts from slot `j` on, under the salt of `g` and the checksum of
    the first `j` frames of `C`, are frames of `g`, and then `C` is `g`. -/
theorem validatePass_one (hsalts : (gens.map LogGen.salt).Nodup) (hfree : NoCollision gens)
    {g C : LogGen pageSize} (hg : g ∈ gens) (hC : C ∈ gens) {j : Nat} (hj : j ≤ C.frames.length)
    (hreads : ∀ i r, reads[i]? = some r → SlotRead gens (j + i) r) {valid : List RawFrame}
    (h : validatePass (some (g.bigEndian, g.salt)) (C.chainAt j) reads = .ok valid) :
    valid = [] ∨ C = g ∧ valid <+: g.raws.drop j := by
  induction reads generalizing C j valid with
  | nil => exact .inl (ok.inj h).symm
  | cons r reads ih =>
    cases r with
    | error e => cases h
    | ok f =>
      unfold validatePass at h
      simp only at h
      split at h
      · exact .inl (ok.inj h).symm
      next hsalt =>
      split at h
      swap
      · exact .inl (ok.inj h).symm
      next next hv =>
      obtain ⟨hrun, rfl⟩ := verifyFrameChecksum_some.mp hv
      obtain ⟨hraw, hstored⟩ := frame_of_verified hfree hg hC hj (hreads 0 _ rfl) hrun
      obtain ⟨hown, -, -, -, hlt⟩ := LogGen.raw_fields hraw
      -- the salt names the generation
      obtain rfl : C = g := inj_on_of_nodup_map hsalts hC hg (hown.symm.trans (not_not.mp hsalt))
      rw [hstored] at h
      cases hrest : validatePass (some (C.bigEndian, C.salt)) (C.chainAt (j + 1)) reads with
      | error e =>
        rw [hrest] at h
        cases h
      | ok valid' =>
      rw [hrest] at h
      rw [← show f :: valid' = valid from ok.inj h]
      refine .inr ⟨rfl, ?_⟩
      obtain ⟨hlen, hget⟩ := List.getElem?_eq_some_iff.mp hraw
      rw [drop_eq_getElem_cons hlen, hget, prefix_cons_inj]
      have hreads' : ∀ i r, reads[i]? = some r → SlotRead gens (j + 1 + i) r := by
        intro i r hr
        rw [show j + 1 + i = j + (i + 1) by omega]
        exact hreads (i + 1) r hr
      rcases ih hC hlt hreads' hrest with rfl | ⟨-, hpre⟩
      · exact nil_prefix
      · exact hpre

theorem prefix_drop_cons {l run : List RawFrame} {f : RawFrame} (h : f :: run <+: l.drop k) :
    l[k]? = some f ∧ run <+: l.drop (k + 1) := by
  obtain ⟨rest, hrest⟩ := h
  refine ⟨?_, rest, ?_⟩
  · rw [← add_zero k, ← List.getElem?_drop, ← hrest]
    rfl
  · rw [← tail_drop, ← hrest]
    rfl

/-- Pass 2 re-reads the frames of pass 1. -/
theorem replayPass_one (hfree : NoCollision gens) {g : LogGen pageSize} (hg : g ∈ gens) {salt : Salt}
    {part : List RawFrame} {j : Nat} (hpart : part <+: g.raws.drop j) (hlen : reads.length = part.length)
    (hreads : ∀ i r, reads[i]? = some r → SlotRead gens (j + i) r) {m m' : PageMap} {c : Option Chain}
    (h : replayPass (some (g.bigEndian, salt)) (some (g.chainAt j)) m (part.zip reads) = .ok (m', c)) :
    m' = part.foldl (fun m f => m.insert f.pageNumber f.body) m ∧ c = some (g.chainAt (j + part.length)) := by
  induction part generalizing reads j m with
  | nil =>
    obtain ⟨rfl, rfl⟩ := Prod.mk.inj (ok.inj h)
    exact ⟨rfl, rfl⟩
  | cons p part ih =>
    cases reads with
    | nil => cases hlen
    | cons r reads =>
      cases r with
      | error e => cases h
      | ok f =>
        obtain ⟨hp, hpart'⟩ := prefix_drop_cons hpart
        have hj : j < g.frames.length := (LogGen.raw_fields hp).2.2.2.2
        rw [zip_cons_cons, replayPass] at h
        split at h
        swap
        · cases h
        next next hv =>
        obtain ⟨hrun, rfl⟩ := verifyFrameChecksum_some.mp hv
        obtain ⟨hraw, hstored⟩ := frame_of_verified hfree hg hg (le_of_lt hj) (hreads 0 _ rfl) hrun
        obtain rfl : f = p := Option.some.inj (hraw.symm.trans hp)
        rw [hstored] at h
        have hreads' : ∀ i r, reads[i]? = some r → SlotRead gens (j + 1 + i) r := by
          intro i r hr
          rw [show j + 1 + i = j + (i + 1) by omega]
          exact hreads (i + 1) r hr
        obtain ⟨hm, hc⟩ := ih hpart' (Nat.succ.inj hlen) hreads' h
        refine ⟨hm, ?_⟩
        rw [hc, length_cons, show j + 1 + part.length = j + (part.length + 1) by omega]

/-- The header a call sees is one generation's. -/
theorem headerSeedAt_eq (hs : ∀ a, Mixed gens (s a)) {hseed : Option HeaderSeed} (h : headerSeedAt s = .ok hseed) :
    (s .metadata).length < walHeaderSize ∨
      ∃ g ∈ gens, (s .header).take walHeaderSize = g.header ∧
        hseed = some ⟨g.base.seed, g.bigEndian, g.salt⟩ := by
  unfold headerSeedAt readExact at h
  split at h
  · next hsize => exact .inl hsize
  split at h
  · cases h
  next bytes hbytes =>
  split at hbytes
  · next hlen =>
    obtain ⟨g, hg, hheader⟩ := (hs .header).header (by omega)
    rw [drop_zero, hheader] at hbytes
    rw [← ok.inj hbytes, LogGen.header, Generation.headerSeed_bytes] at h
    refine .inr ⟨g, hg, hheader, ?_⟩
    split at h
    · cases h
    · exact (ok.inj h).symm
  · cases hbytes

/-- `run` is a run of the generation from slot `k`, up to a commit frame. -/
structure RunOf (g : LogGen pageSize) (k : Nat) (run : List RawFrame) : Prop where
  segment : run <+: g.raws.drop k
  commit : EndsInCommit run

/-- What pass 1 of a chain-validated read accepts, up to the last commit. -/
theorem validatePass_read (hsalts : (gens.map LogGen.salt).Nodup) (hfree : NoCollision gens)
    (hs : ∀ a, Mixed gens (s a)) {chainSeed : Option Chain}
    (hseed : k = 0 ∨ ∃ C ∈ gens, k ≤ C.frames.length ∧ chainSeed = some (C.chainAt k))
    {header : Option HeaderSeed} (hheader : headerSeedAt s = .ok header) {valid : List RawFrame}
    (h : validatePass (readSeed header (slot pageSize k) chainSeed).2
      (readSeed header (slot pageSize k) chainSeed).1 (framesAt s false pageSize (slot pageSize k)
        (((s .metadata).length - slot pageSize k) / frameSize pageSize)) = .ok valid) :
    committedPart valid = [] ∨ ∃ g ∈ gens, (s .header).take walHeaderSize = g.header ∧
      RunOf g k (committedPart valid) ∧ header = some ⟨g.base.seed, g.bigEndian, g.salt⟩ ∧
      readSeed header (slot pageSize k) chainSeed = (g.chainAt k, some (g.bigEndian, g.salt)) := by
  rcases headerSeedAt_eq hs hheader with hshort | ⟨g, hg, hbytes, rfl⟩
  · -- no header yet, so no frame either
    have hzero : (s .metadata).length - slot pageSize k = 0 := by
      have := @header_le_slot pageSize k
      omega
    rw [hzero, Nat.zero_div] at h
    rw [← ok.inj h]
    exact .inl rfl
  · have hfirst : slot pageSize 0 = walHeaderSize := by rw [slot, Nat.zero_mul, add_zero]
    have hread : ∃ C ∈ gens, k ≤ C.frames.length ∧
        readSeed (some ⟨g.base.seed, g.bigEndian, g.salt⟩) (slot pageSize k) chainSeed =
          (C.chainAt k, some (g.bigEndian, g.salt)) := by
      by_cases hk : k = 0
      · subst hk
        refine ⟨g, hg, Nat.zero_le _, ?_⟩
        rw [readSeed, if_pos hfirst, LogGen.chainAt_zero]
      · obtain ⟨C, hC, hle, rfl⟩ := hseed.resolve_left hk
        have hne : slot pageSize k ≠ walHeaderSize := by
          have := @slot_le pageSize 0 k (pos_of_ne_zero hk)
          rw [frameSize, frameHeaderSize] at this
          omega
        exact ⟨C, hC, hle, by simp [readSeed, hne]⟩
    obtain ⟨C, hC, hle, hread⟩ := hread
    rw [hread] at h
    rcases validatePass_one hsalts hfree hg hC hle (fun i r hr => slotRead_framesAt hs hr) h with
      rfl | ⟨rfl, hpre⟩
    · exact .inl rfl
    · exact .inr ⟨C, hg, hbytes, ⟨(committedPart_isPrefix valid).trans hpre, endsInCommit_committedPart valid⟩,
        rfl, hread⟩

theorem chainAfter_run {g : LogGen pageSize} {run : List RawFrame} (h : run <+: g.raws.drop k) :
    chainAfter g.bigEndian (g.chainAt k) run = g.chainAt (k + run.length) := by
  induction run generalizing k with
  | nil => rfl
  | cons f run ih =>
    obtain ⟨hraw, hrest⟩ := prefix_drop_cons h
    have hrun : f.running g.bigEndian (g.chainAt k) = g.chainAt (k + 1) := by
      rw [← (LogGen.raw_fields hraw).2.1]
      rw [LogGen.raws_getElem?] at hraw
      obtain ⟨f', -, rfl⟩ := Option.map_eq_some_iff.mp hraw
      rw [raw_running, raw_stored]
    show chainAfter g.bigEndian (f.running g.bigEndian (g.chainAt k)) run = _
    rw [hrun, ih hrest, length_cons, show k + 1 + run.length = k + (run.length + 1) by omega]

section

variable (hsalts : (gens.map LogGen.salt).Nodup) (hfree : NoCollision gens) (hmixed : ∀ a, Mixed gens (s a))
  {offset : Nat} {chainSeed : Option Chain} (hstart : startPos offset = slot pageSize k)
  (hseed : k = 0 ∨ ∃ C ∈ gens, k ≤ C.frames.length ∧ chainSeed = some (C.chainAt k))

include hsalts hfree hmixed hstart hseed

theorem pages_one_generation {r : PagesRead} (hr : readFramesAsPagesCheckedAt s pageSize offset chainSeed = .ok r) :
    r.frames = [] ∨ ∃ g ∈ gens, (s .header).take walHeaderSize = g.header ∧ ∃ run, RunOf g k run ∧
      r.frames = run.map RawFrame.parsed ∧ r.newOffset = slot pageSize (k + run.length) ∧
      r.chain = some (g.chainAt (k + run.length)) := by
  rw [readFramesAsPagesCheckedAt_eq] at hr
  split at hr
  · cases hr
  next header hh =>
  simp only [hstart] at hr
  split at hr
  · cases hr
  next valid hv =>
  by_cases hb : committedPart valid = []
  · rw [if_pos hb] at hr
    rw [← ok.inj hr]
    exact .inl rfl
  rw [if_neg hb] at hr
  obtain ⟨g, hg, hbytes, hrun, rfl, hread⟩ :=
    (validatePass_read hsalts hfree hmixed hseed hh hv).resolve_left hb
  rw [batchChain, hread] at hr
  split at hr
  · cases hr
  obtain ⟨last, hlast⟩ := Option.ne_none_iff_exists'.mp fun h => hb (List.getLast?_eq_none_iff.mp h)
  rw [← ok.inj hr, pagesBatch, hlast]
  exact .inr ⟨g, hg, hbytes, _, hrun, rfl, slot_add, congrArg some (chainAfter_run hrun.segment)⟩

theorem pageMap_one_generation {r : PageMapRead}
    (hr : readFramesAsPageMapCheckedAt s pageSize offset chainSeed = .ok r) :
    r.pageMap = [] ∨ ∃ g ∈ gens, (s .header).take walHeaderSize = g.header ∧ ∃ run, RunOf g k run ∧
      r.pageMap = pageMapOf run ∧ r.newOffset = slot pageSize (k + run.length) ∧
      r.chain = some (g.chainAt (k + run.length)) := by
  unfold readFramesAsPageMapCheckedAt at hr
  split at hr
  · cases hr
  next header hh =>
  simp only [hstart] at hr
  split at hr
  · rw [← ok.inj hr]
    exact .inl rfl
  split at hr
  · rw [← ok.inj hr]
    exact .inl rfl
  split at hr
  · cases hr
  next valid hv =>
  split at hr
  · rw [← ok.inj hr]
    exact .inl rfl
  next last hlast =>
  obtain ⟨g, hg, hbytes, hrun, rfl, hread⟩ :=
    (validatePass_read hsalts hfree hmixed hseed hh hv).resolve_left fun h => by simp [h] at hlast
  have hval : (readSeed (some ⟨g.base.seed, g.bigEndian, g.salt⟩) (slot pageSize k) chainSeed).2 =
      some (g.bigEndian, g.salt) := by rw [hread]
  rw [outChain_of_validated hval, hread] at hr
  split at hr
  · cases hr
  next m c hpass =>
  have hlen : (framesAt s true pageSize (slot pageSize k) (committedPart valid).length).length =
      (committedPart valid).length := by rw [framesAt, length_map, length_range]
  obtain ⟨rfl, rfl⟩ := replayPass_one hfree hg hrun.segment hlen
    (fun i r hr => slotRead_framesAt hmixed hr) hpass
  split at hr
  · cases hr
  rw [← ok.inj hr]
  exact .inr ⟨g, hg, hbytes, _, hrun, rfl, slot_add, rfl⟩

end

/-- **Checked reads never mix generations.** However the writes of SQLite fall between the file accesses of a
    call, a chain-validated read (from the header, or from the end of some generation's first `k` frames with
    their checksum) fails, or returns no frame, or returns a run of the one generation whose header it saw,
    from the start offset to a commit frame, with the offset and the checksum behind it. -/
theorem checked_reads_one_generation (hsalts : (gens.map LogGen.salt).Nodup) (hfree : NoCollision gens)
    {s : Sight} (hs : ∀ a, ∃ l, Reachable gens l ∧ s a = l.file) {offset k : Nat} {chainSeed : Option Chain}
    (hstart : startPos offset = slot pageSize k)
    (hseed : k = 0 ∨ ∃ C ∈ gens, k ≤ C.frames.length ∧ chainSeed = some (C.chainAt k)) :
    (∀ r, readFramesAsPagesCheckedAt s pageSize offset chainSeed = .ok r →
      r.frames = [] ∨ ∃ g ∈ gens, (s .header).take walHeaderSize = g.header ∧ ∃ run, RunOf g k run ∧
        r.frames = run.map RawFrame.parsed ∧ r.newOffset = slot pageSize (k + run.length) ∧
        r.chain = some (g.chainAt (k + run.length))) ∧
    (∀ r, readFramesAsPageMapCheckedAt s pageSize offset chainSeed = .ok r →
      r.pageMap = [] ∨ ∃ g ∈ gens, (s .header).take walHeaderSize = g.header ∧ ∃ run, RunOf g k run ∧
        r.pageMap = pageMapOf run ∧ r.newOffset = slot pageSize (k + run.length) ∧
        r.chain = some (g.chainAt (k + run.length))) := by
  have hmixed : ∀ a, Mixed gens (s a) := by
    intro a
    obtain ⟨l, hl, ha⟩ := hs a
    rw [ha]
    exact mixed_of_reachable hl
  exact ⟨fun r hr => pages_one_generation hsalts hfree hmixed hstart hseed hr,
    fun r hr => pageMap_one_generation hsalts hfree hmixed hstart hseed hr⟩

end Readers

/-! ## A reset under a reader -/

/-- Two generations of one frame each. -/
def turn (second : Bool) : LogGen 512 where
  salt := if second then (2, 9) else (1, 2)
  checkpointSeq := 0
  bigEndian := false
  frames := [⟨2, 2, replicate 512 (if second then 8 else 7)⟩]
  dataLen := by
    intro f hf
    rw [mem_singleton.mp hf]
    exact length_replicate
  pageSizePos := by decide

/-- The one frame of `turn`. -/
def turnFrame (second : Bool) : RawFrame :=
  Frame.raw false (turn second).salt (turn second).base.seed
    ⟨2, 2, replicate 512 (if second then 8 else 7)⟩

theorem noCollision_turn : NoCollision [turn false, turn true] := by
  have hturn : ∀ g ∈ [turn false, turn true], ∃ second, g = turn second := by
    intro g hg
    rcases mem_cons.mp hg with rfl | hg
    · exact ⟨false, rfl⟩
    · exact ⟨true, mem_singleton.mp hg⟩
  -- only slot 0 is ever written
  have hslot : ∀ second i raw, (turn second).raws[i]? = some raw → i = 0 ∧ raw = turnFrame second := by
    intro second i raw h
    cases i with
    | zero => exact ⟨rfl, (Option.some.inj h).symm⟩
    | succ i => cases h
  have hkey : ∀ a b c : Bool,
      RawFrame.running false ((turn c).chainAt 0) ⟨(turnFrame a).header, (turnFrame b).body⟩ =
        (turn a).chainAt 1 → a = c ∧ b = a := by decide +kernel
  intro G hG A hA B hB C hC i a b ha hb _ hrun
  obtain ⟨g, rfl⟩ := hturn G hG
  obtain ⟨x, rfl⟩ := hturn A hA
  obtain ⟨y, rfl⟩ := hturn B hB
  obtain ⟨z, rfl⟩ := hturn C hC
  obtain ⟨rfl, rfl⟩ := hslot x i a ha
  obtain ⟨-, rfl⟩ := hslot y 0 b hb
  obtain ⟨rfl, rfl⟩ := hkey x y z hrun
  exact ⟨rfl, rfl⟩

/-- The file once the first generation has its frame. -/
def turnFile : Bytes :=
  writeAt (writeAt (writeAt [] 0 (turn false).header) 32 (turnFrame false).header) 56 (turnFrame false).body

/-- The file once the second has overwritten it. -/
def turnedFile : Bytes :=
  writeAt (writeAt (writeAt (turnFile.take 568) 0 (turn true).header) 32 (turnFrame true).header) 56
    (turnFrame true).body

theorem reachable_turnFile : Reachable [turn false, turn true] ⟨turnFile, 1, 1, false, true⟩ :=
  .tail (.tail (.tail .refl (.reset (g := turn false) 0 rfl))
    (.frameHeader (n := 0) (g := turn false) rfl rfl rfl rfl rfl))
    (.frameBody (n := 0) (g := turn false) rfl rfl rfl rfl rfl)

theorem reachable_turnedFile : Reachable [turn false, turn true] ⟨turnedFile, 2, 1, false, true⟩ :=
  .tail (.tail (.tail reachable_turnFile (.reset (g := turn true) 568 rfl))
    (.frameHeader (n := 1) (g := turn true) rfl rfl rfl rfl rfl))
    (.frameBody (n := 1) (g := turn true) rfl rfl rfl rfl rfl)

/-- A call that takes the file's size before the reset and reads it afterwards. -/
def turnSight : Sight
  | .metadata => turnFile
  | _ => turnedFile

theorem checked_reads_turn :
    ∃ r, readFramesAsPagesCheckedAt turnSight 512 0 none = .ok r ∧ r.frames.length = 1 ∧
      ∃ g ∈ [turn false, turn true], turnedFile.take 32 = g.header ∧ ∃ run, RunOf g 0 run ∧
        r.frames = run.map RawFrame.parsed := by
  have hlen : (readFramesAsPagesCheckedAt turnSight 512 0 none).toOption.map (·.frames.length) = some 1 := by
    decide +kernel
  cases h : readFramesAsPagesCheckedAt turnSight 512 0 none with
  | error e =>
    rw [h] at hlen
    cases hlen
  | ok r =>
    rw [h] at hlen
    have hone : r.frames.length = 1 := Option.some.inj hlen
    have hs : ∀ a, ∃ l, Reachable [turn false, turn true] l ∧ turnSight a = l.file := by
      intro a
      cases a
      case metadata => exact ⟨_, reachable_turnFile, rfl⟩
      all_goals exact ⟨_, reachable_turnedFile, rfl⟩
    have hsalts : ([turn false, turn true].map LogGen.salt).Nodup := by decide
    rcases (checked_reads_one_generation hsalts noCollision_turn hs (k := 0) rfl (.inl rfl)).1 r h with
      hnil | ⟨g, hg, hheader, run, hrun, hframes, -, -⟩
    · rw [hnil] at hone
      cases hone
    · exact ⟨r, rfl, hone, g, hg, hheader, run, hrun, hframes⟩

end Wal
end Walrust
