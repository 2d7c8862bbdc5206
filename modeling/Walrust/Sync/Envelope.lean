import Walrust.Sync

/-!
# `Walrust.Sync.Envelope` — fenced envelopes and their follower

The wire format of a fenced delta (`external_delta.rs`) and the follower that rebuilds a database from the
envelopes after a base (`reconstruct_fenced_follower`). The CBOR crate and BLAKE3 are parameters.

* `encodeEnvelope`, `decodeEnvelope` — magic, version, CBOR body;
* `listDeltaEnvelopesAfter`, `reconstructFencedFollower` — discovery, the fences, and the apply loop;
* `Followed` — what the follower has established when it stands at a seq: every fence held for every envelope up
  to there, and the payloads applied one after the other give the database;
* `reconstruct_ok_iff` — the follower returns exactly where `Followed` leads, if nothing is stored beyond.
-/

namespace Walrust
namespace Sync

open Ltx Hadbp Lib List

variable {n after : Nat}

/-! ## The envelope -/

/-- The crates under the envelope: ciborium's writer and reader of a payload, and BLAKE3. -/
structure EnvelopeCrates where
  intoWriter : DeltaPayloadV1 → Except String Bytes
  fromReader : Bytes → Except String DeltaPayloadV1
  blake3 : Bytes → Bytes

/-- What is assumed of the CBOR crate: a payload is read back from its encoding. -/
def EnvelopeCrates.RoundTrips (cr : EnvelopeCrates) : Prop :=
  ∀ p body, cr.intoWriter p = .ok body → cr.fromReader body = .ok p

/-- `b"TLMD"`. -/
def deltaMagic : Bytes := [84, 76, 77, 68]

def deltaVersionV1 : Nat := 1

inductive DeltaPayloadError where
  | truncated (length : Nat)
  | magicMismatch (got : Bytes)
  | unsupportedVersion (found supported : Nat)
  | bodyDecode (msg : String)
  | bodyEncode (msg : String)
  deriving DecidableEq, Repr

def DeltaPayloadError.message : DeltaPayloadError → String
  | .truncated n => s!"delta payload too short to be a TLMD envelope ({n} bytes)"
  | .magicMismatch got => s!"delta magic mismatch: expected TLMD, got {repr got}"
  | .unsupportedVersion found supported =>
    s!"unsupported delta format version 0x{hexPad 4 found}; this build supports 0x{hexPad 4 supported}"
  | .bodyDecode msg => s!"delta body decode failed: {msg}"
  | .bodyEncode msg => s!"delta body encode failed: {msg}"

/-- `external_delta::encode`. -/
def encodeEnvelope (cr : EnvelopeCrates) (payload : DeltaPayloadV1) : Except DeltaPayloadError Bytes :=
  match cr.intoWriter payload with
  | .error e => .error (.bodyEncode e)
  | .ok body => .ok (deltaMagic ++ Bytes.beBytes 2 deltaVersionV1 ++ body)

/-- `external_delta::decode`. -/
def decodeEnvelope (cr : EnvelopeCrates) (bytes : Bytes) : Except DeltaPayloadError DeltaPayloadV1 :=
  if bytes.length < deltaMagic.length + 2 then .error (.truncated bytes.length)
  else if bytes.take deltaMagic.length ≠ deltaMagic then
    .error (.magicMismatch (bytes.take deltaMagic.length))
  else if Bytes.field bytes deltaMagic.length 2 ≠ deltaVersionV1 then
    .error (.unsupportedVersion (Bytes.field bytes deltaMagic.length 2) deltaVersionV1)
  else
    match cr.fromReader (bytes.drop (deltaMagic.length + 2)) with
    | .error e => .error (.bodyDecode e)
    | .ok payload => .ok payload

/-- The envelope as the writer uses it. -/
def EnvelopeCrates.codec (cr : EnvelopeCrates) : EnvelopeCodec where
  encode payload :=
    match encodeEnvelope cr payload with
    | .error e => .error e.message
    | .ok bytes => .ok bytes
  checksum := cr.blake3

theorem EnvelopeCrates.codec_encode {cr : EnvelopeCrates} {p : DeltaPayloadV1} {bytes : Bytes} :
    cr.codec.encode p = .ok bytes ↔ encodeEnvelope cr p = .ok bytes := by
  simp only [codec]
  cases encodeEnvelope cr p <;> simp

/-- An envelope decodes to the payload it was made of. -/
theorem decodeEnvelope_encode {cr : EnvelopeCrates} (hcr : cr.RoundTrips) {p : DeltaPayloadV1} {bytes : Bytes}
    (h : encodeEnvelope cr p = .ok bytes) : decodeEnvelope cr bytes = .ok p := by
  unfold encodeEnvelope at h
  cases hbody : cr.intoWriter p with
  | error e =>
    rw [hbody] at h
    cases h
  | ok body =>
    rw [hbody] at h
    injection h with h
    subst h
    have hversion : Bytes.field (deltaMagic ++ Bytes.beBytes 2 deltaVersionV1 ++ body)
        deltaMagic.length 2 = deltaVersionV1 := by
      rfl
    have hlen : ¬ (deltaMagic ++ Bytes.beBytes 2 deltaVersionV1 ++ body).length < deltaMagic.length + 2 := by
      rw [length_append, length_append, Bytes.length_beBytes]
      omega
    rw [decodeEnvelope, if_neg hlen, if_neg (by simp), if_neg (not_not_intro hversion)]
    have hdrop : (deltaMagic ++ Bytes.beBytes 2 deltaVersionV1 ++ body).drop (deltaMagic.length + 2) =
        body := rfl
    rw [hdrop, hcr p body hbody]

/-! ## Discovery -/

inductive FollowError where
  /-- A fence or a binding was violated. -/
  | integrity (msg : String)
  | other (msg : String)
  deriving DecidableEq, Repr

structure DiscoveredDelta where
  seq : Nat
  payload : DeltaPayloadV1
  envelopeChecksum : Bytes
  deriving DecidableEq, Repr

/-- The seq of an envelope beyond `after`. -/
def envelopeAfter (after : Nat) : Key → Option Nat
  | .envelope seq => if after < seq then some seq else none
  | _ => none

/-- The loop of `list_delta_envelopes_after`. -/
def readEnvelopes (cr : EnvelopeCrates) (pre name : String) (b : Bucket) :
    List Nat → Except FollowError (List DiscoveredDelta)
  | [] => .ok []
  | seq :: rest =>
    match b.get (.envelope seq) with
    | none => readEnvelopes cr pre name b rest
    | some bytes =>
      match decodeEnvelope cr bytes with
      | .error e => .error (.other s!"decode delta at {(Key.envelope seq).path pre name}: {e.message}")
      | .ok payload =>
        if payload.seq ≠ seq then
          .error (.integrity (s!"delta envelope seq mismatch at {(Key.envelope seq).path pre name}: " ++
            s!"key seq {seq} but payload seq {payload.seq}"))
        else
          match readEnvelopes cr pre name b rest with
          | .error e => .error e
          | .ok ds => .ok (⟨seq, payload, cr.blake3 bytes⟩ :: ds)

/-- `list_delta_envelopes_after`. -/
def listDeltaEnvelopesAfter (cr : EnvelopeCrates) (pre name : String) (b : Bucket) (after : Nat) :
    Except FollowError (List DiscoveredDelta) :=
  readEnvelopes cr pre name b (b.listing (envelopeAfter after))

/-! ## The follower -/

structure FencedFollowerCursor where
  baseSeq : Nat
  epoch : Nat
  writerId : String
  baseEnvelopeChecksum : Bytes
  deriving DecidableEq, Repr

structure FencedFollowerResult where
  applied : Nat
  headSeq : Nat
  headEnvelopeChecksum : Bytes
  dbChecksum : UInt64
  deriving DecidableEq, Repr

/-- The follower between two envelopes: the output file and the two running checksums. -/
structure Following where
  db : Bytes
  runningDb : UInt64
  runningEnv : Bytes
  deriving DecidableEq, Repr

/-- One round of the loop of `reconstruct_fenced_follower`, at position `i`. -/
def followDelta (cr : EnvelopeCrates) (ph : Physical) (name : String) (cursor : FencedFollowerCursor) (i : Nat)
    (d : DiscoveredDelta) (s : Following) : Except FollowError Following :=
  if d.seq ≠ cursor.baseSeq + i + 1 then
    .error (.integrity (s!"{name}: fenced envelope seq gap: expected {cursor.baseSeq + i + 1}, got {d.seq} " ++
      s!"at position {i}"))
  else if d.payload.epoch ≠ cursor.epoch then
    .error (.integrity (s!"{name}: epoch fence rejected envelope seq {d.seq} (epoch {d.payload.epoch} != " ++
      s!"cursor epoch {cursor.epoch})"))
  else if d.payload.writerId ≠ cursor.writerId then
    .error (.integrity (s!"{name}: writer fence rejected envelope seq {d.seq} " ++
      s!"(writer {repr d.payload.writerId} != {repr cursor.writerId})"))
  else if d.payload.prevChecksum ≠ s.runningEnv then
    .error (.integrity s!"{name}: envelope chain break at seq {d.seq}")
  else
    match encodeEnvelope cr d.payload with
    | .error e => .error (.other s!"re-encode fenced envelope seq {d.seq}: {e.message}")
    | .ok envelope =>
      if cr.blake3 envelope ≠ d.envelopeChecksum then
        .error (.integrity
          s!"{name}: envelope checksum mismatch at seq {d.seq} (recomputed != discovered)")
      else
        match applyChangesetToDb ph d.payload.ltxPayload s.db s.runningDb with
        | .error e => .error (.other e)
        | .ok step => .ok ⟨step.db, step.checksum, d.envelopeChecksum⟩

/-- The loop, from position `i` on. -/
def followDeltas (cr : EnvelopeCrates) (ph : Physical) (name : String) (cursor : FencedFollowerCursor) :
    Nat → List DiscoveredDelta → Following → Except FollowError Following
  | _, [], s => .ok s
  | i, d :: ds, s =>
    match followDelta cr ph name cursor i d s with
    | .error e => .error e
    | .ok s' => followDeltas cr ph name cursor (i + 1) ds s'

/-- `reconstruct_fenced_follower`, with the file it leaves. -/
def reconstructFencedFollower (cr : EnvelopeCrates) (ph : Physical) (pre name : String) (b : Bucket)
    (cursor : FencedFollowerCursor) (base : Bytes) : Except FollowError (FencedFollowerResult × Bytes) :=
  match listDeltaEnvelopesAfter cr pre name b cursor.baseSeq with
  | .error e => .error e
  | .ok deltas =>
    match followDeltas cr ph name cursor 0 deltas
        ⟨base, computeChecksumFromFile ph base, cursor.baseEnvelopeChecksum⟩ with
    | .error e => .error e
    | .ok s =>
      .ok (⟨deltas.length, cursor.baseSeq + deltas.length, s.runningEnv, s.runningDb⟩, s.db)

/-! ## What the follower establishes -/

theorem envelopeAfter_eq_some {k : Key} : envelopeAfter after k = some n ↔ k = .envelope n ∧ after < n := by
  cases k with
  | envelope seq =>
    simp only [envelopeAfter, Key.envelope.injEq, Option.ite_none_right_eq_some, Option.some.injEq]
    constructor
    · rintro ⟨hlt, rfl⟩
      exact ⟨rfl, hlt⟩
    · rintro ⟨rfl, hlt⟩
      exact ⟨hlt, rfl⟩
  | changeset l g seq => simp [envelopeAfter]
  | merged level min max => simp [envelopeAfter]

theorem envelopeAfter_numbering : Store.Numbering (envelopeAfter after) := by
  intro k j n hk hj
  rw [(envelopeAfter_eq_some.mp hk).1, (envelopeAfter_eq_some.mp hj).1]

theorem mem_envelopesAfter {b : Bucket} :
    n ∈ b.listing (envelopeAfter after) ↔ after < n ∧ (b.get (.envelope n)).isSome := by
  rw [Store.mem_listing]
  constructor
  · rintro ⟨k, hk, hn⟩
    obtain ⟨rfl, hlt⟩ := envelopeAfter_eq_some.mp hn
    exact ⟨hlt, hk⟩
  · rintro ⟨hlt, hk⟩
    exact ⟨_, hk, envelopeAfter_eq_some.mpr ⟨rfl, hlt⟩⟩

section Follower

variable (cr : EnvelopeCrates) (ph : Physical) (b : Bucket) (cursor : FencedFollowerCursor) (base : Bytes)

variable {ds : List DiscoveredDelta} {i : Nat} {name pre : String} {s s' : Following}

/-- **Where a follower stands.** `Followed … n s`: the envelopes up to seq `n` are stored without a gap, each
    passed every fence, and their payloads, applied to the base one after the other, lead to `s`. -/
inductive Followed : Nat → Following → Prop where
  | base : Followed cursor.baseSeq ⟨base, computeChecksumFromFile ph base, cursor.baseEnvelopeChecksum⟩
  | next {n : Nat} {s : Following} {bytes envelope : Bytes} {payload : DeltaPayloadV1} {step : Applied}
      (h : Followed n s)
      (stored : b.get (.envelope (n + 1)) = some bytes)
      (decodes : decodeEnvelope cr bytes = .ok payload)
      (seq : payload.seq = n + 1)
      (epoch : payload.epoch = cursor.epoch)
      (writer : payload.writerId = cursor.writerId)
      (link : payload.prevChecksum = s.runningEnv)
      (encodes : encodeEnvelope cr payload = .ok envelope)
      (same : cr.blake3 envelope = cr.blake3 bytes)
      (applies : applyChangesetToDb ph payload.ltxPayload s.db s.runningDb = .ok step) :
      Followed (n + 1) ⟨step.db, step.checksum, cr.blake3 bytes⟩

variable {cr ph b cursor base} {ds' : List DiscoveredDelta}

theorem Followed.le (h : Followed cr ph b cursor base n s) : cursor.baseSeq ≤ n := by
  induction h with
  | base => exact le_refl _
  | next => omega

theorem Followed.frame {b' : Bucket} (h : Followed cr ph b cursor base n s)
    (hb : ∀ m, m ≤ n → b'.get (.envelope m) = b.get (.envelope m)) : Followed cr ph b' cursor base n s := by
  induction h with
  | base => exact .base
  | next _ stored decodes seq epoch writer link encodes same applies ih =>
    refine .next (ih fun m hm => hb m (by omega)) ?_ decodes seq epoch writer link encodes same applies
    rw [hb _ (le_refl _)]
    exact stored

theorem followDelta_ok {d : DiscoveredDelta} :
    followDelta cr ph name cursor i d s = .ok s' ↔
      d.seq = cursor.baseSeq + i + 1 ∧ d.payload.epoch = cursor.epoch ∧
        d.payload.writerId = cursor.writerId ∧ d.payload.prevChecksum = s.runningEnv ∧
        ∃ envelope step, encodeEnvelope cr d.payload = .ok envelope ∧
          cr.blake3 envelope = d.envelopeChecksum ∧
          applyChangesetToDb ph d.payload.ltxPayload s.db s.runningDb = .ok step ∧
          s' = ⟨step.db, step.checksum, d.envelopeChecksum⟩ := by
  unfold followDelta
  constructor
  · intro h
    split at h
    · cases h
    rename_i hseq
    split at h
    · cases h
    rename_i hepoch
    split at h
    · cases h
    rename_i hwriter
    split at h
    · cases h
    rename_i hlink
    split at h
    · cases h
    rename_i envelope hencode
    split at h
    · cases h
    rename_i hsame
    split at h
    · cases h
    rename_i step happly
    injection h with h
    exact ⟨not_not.mp hseq, not_not.mp hepoch, not_not.mp hwriter, not_not.mp hlink, envelope, step, hencode,
      not_not.mp hsame, happly, h.symm⟩
  · rintro ⟨hseq, hepoch, hwriter, hlink, envelope, step, hencode, hsame, happly, rfl⟩
    simp [hseq, hepoch, hwriter, hlink, hencode, hsame, happly]

/-- **Soundness of the loop**: from where it stands, the loop over what was read of the seqs `seqs` ends where
    `Followed` leads, and the seqs had no gap. -/
theorem followed_of_loop {seqs : List Nat} (hall : ∀ n ∈ seqs, (b.get (.envelope n)).isSome)
    (hread : readEnvelopes cr pre name b seqs = .ok ds)
    (hloop : followDeltas cr ph name cursor i ds s = .ok s')
    (h : Followed cr ph b cursor base (cursor.baseSeq + i) s) :
    Followed cr ph b cursor base (cursor.baseSeq + i + ds.length) s' ∧
      seqs = range' (cursor.baseSeq + i + 1) ds.length := by
  -- induction on the seqs, each round moving the position by one
  induction seqs generalizing ds i s with
  | nil =>
    injection hread with hread
    subst hread
    injection hloop with hloop
    subst hloop
    exact ⟨h, rfl⟩
  | cons seq rest ih =>
    obtain ⟨bytes, hbytes⟩ := Option.isSome_iff_exists.mp (hall seq mem_cons_self)
    simp only [readEnvelopes, hbytes] at hread
    split at hread
    · cases hread
    next payload hdec =>
    split at hread
    · cases hread
    next hseq =>
    split at hread
    · cases hread
    next ds' hrest =>
    injection hread with hread
    subst hread
    rw [followDeltas] at hloop
    split at hloop
    · cases hloop
    next s₁ hround =>
    obtain ⟨hpos, hepoch, hwriter, hlink, envelope, step, hencode, hsame, happly, rfl⟩ := followDelta_ok.mp hround
    obtain rfl : seq = cursor.baseSeq + i + 1 := hpos
    have hnext := Followed.next h hbytes hdec (not_not.mp hseq) hepoch hwriter hlink hencode hsame happly
    obtain ⟨hend, hrange⟩ := @ih ds' (i + 1) _ (fun n hn => hall n (mem_cons_of_mem _ hn)) hrest hloop hnext
    refine ⟨?_, congrArg _ hrange⟩
    rw [length_cons, ← add_assoc, add_right_comm]
    exact hend

theorem Followed.stored {n : Nat} {s : Following} (h : Followed cr ph b cursor base n s) {m : Nat}
    (hlt : cursor.baseSeq < m) (hle : m ≤ n) : (b.get (.envelope m)).isSome := by
  induction h with
  | base => omega
  | @next n _ _ _ _ _ _ stored _ _ _ _ _ _ _ _ ih =>
    by_cases hm : m = n + 1
    · rw [hm, stored]
      rfl
    · exact ih (by omega)

/-- A follower past its base has accepted the first envelope after it. -/
theorem Followed.first (h : Followed cr ph b cursor base n s) (hlt : cursor.baseSeq < n) :
    ∃ bytes payload step, b.get (.envelope (cursor.baseSeq + 1)) = some bytes ∧
      decodeEnvelope cr bytes = .ok payload ∧
      applyChangesetToDb ph payload.ltxPayload base (computeChecksumFromFile ph base) = .ok step := by
  induction h with
  | base => omega
  | @next n s _ _ _ _ h stored decodes _ _ _ _ _ _ applies ih =>
    cases h with
    | base => exact ⟨_, _, _, stored, decodes, applies⟩
    | next h' => exact ih (by have := h'.le; omega)

theorem readEnvelopes_append {seqs seqs' : List Nat} (h : readEnvelopes cr pre name b seqs = .ok ds)
    (h' : readEnvelopes cr pre name b seqs' = .ok ds') :
    readEnvelopes cr pre name b (seqs ++ seqs') = .ok (ds ++ ds') := by
  induction seqs generalizing ds with
  | nil =>
    injection h with h
    subst h
    exact h'
  | cons seq rest ih =>
    rw [cons_append, readEnvelopes]
    rw [readEnvelopes] at h
    split at h
    · exact ih h
    split at h
    · cases h
    split at h
    · cases h
    next hseq =>
    split at h
    · cases h
    next es hrest =>
    injection h with h
    subst h
    rw [if_neg hseq, ih hrest]
    rfl

theorem followDeltas_append (h : followDeltas cr ph name cursor i ds s = .ok s') :
    followDeltas cr ph name cursor i (ds ++ ds') s = followDeltas cr ph name cursor (i + ds.length) ds' s' := by
  induction ds generalizing i s with
  | nil =>
    injection h with h
    subst h
    rfl
  | cons d ds ih =>
    rw [cons_append, followDeltas]
    rw [followDeltas] at h
    split at h
    · cases h
    · rw [length_cons, ← add_assoc, add_right_comm]
      exact ih h

/-- **Completeness of the loop**: wherever `Followed` leads, the loop arrives. -/
theorem loop_of_followed {pre name : String} {n : Nat} {s : Following} (h : Followed cr ph b cursor base n s) :
    ∃ ds, readEnvelopes cr pre name b (range' (cursor.baseSeq + 1) (n - cursor.baseSeq)) = .ok ds ∧
      ds.length = n - cursor.baseSeq ∧
      followDeltas cr ph name cursor 0 ds
        ⟨base, computeChecksumFromFile ph base, cursor.baseEnvelopeChecksum⟩ = .ok s := by
  induction h with
  | base =>
    rw [Nat.sub_self]
    exact ⟨[], rfl, rfl, rfl⟩
  | @next n s bytes envelope payload step h stored decodes seq epoch writer link encodes same applies ih =>
    obtain ⟨ds, hread, hlen, hloop⟩ := ih
    have hle := h.le
    have hlast : readEnvelopes cr pre name b [n + 1] = .ok [⟨n + 1, payload, cr.blake3 bytes⟩] := by
      simp [readEnvelopes, stored, decodes, seq]
    have hround : followDelta cr ph name cursor ds.length ⟨n + 1, payload, cr.blake3 bytes⟩ s =
        .ok ⟨step.db, step.checksum, cr.blake3 bytes⟩ := by
      refine followDelta_ok.mpr ⟨?_, epoch, writer, link, envelope, step, encodes, same, applies, rfl⟩
      show n + 1 = cursor.baseSeq + ds.length + 1
      omega
    refine ⟨ds ++ [⟨n + 1, payload, cr.blake3 bytes⟩], ?_, ?_, ?_⟩
    · have hseqs : range' (cursor.baseSeq + 1) (n + 1 - cursor.baseSeq) =
          range' (cursor.baseSeq + 1) (n - cursor.baseSeq) ++ [n + 1] := by
        rw [Nat.succ_sub hle, List.range'_1_concat]
        congr 2
        omega
      rw [hseqs]
      exact readEnvelopes_append hread hlast
    · rw [length_append, length_singleton]
      omega
    · rw [followDeltas_append hloop, zero_add, followDeltas, hround]
      rfl

/-- **The follower returns exactly where `Followed` leads**, if nothing is stored beyond. -/
theorem reconstruct_ok_iff {res : FencedFollowerResult} {db : Bytes} :
    reconstructFencedFollower cr ph pre name b cursor base = .ok (res, db) ↔
      ∃ n s, Followed cr ph b cursor base n s ∧ (∀ m, n < m → b.get (.envelope m) = none) ∧
        res = ⟨n - cursor.baseSeq, n, s.runningEnv, s.runningDb⟩ ∧ db = s.db := by
  unfold reconstructFencedFollower listDeltaEnvelopesAfter
  constructor
  · intro h
    split at h
    · cases h
    next ds hread =>
    split at h
    · cases h
    next s hloop =>
    injection h with h
    injection h with hres hdb
    obtain ⟨hfollowed, hseqs⟩ := followed_of_loop (fun n hn => (mem_envelopesAfter.mp hn).2) hread hloop .base
    refine ⟨_, s, hfollowed, ?_, ?_, hdb.symm⟩
    · intro m hm
      by_contra hsome
      have hmem : m ∈ b.listing (envelopeAfter cursor.baseSeq) :=
        mem_envelopesAfter.mpr ⟨by omega, Option.isSome_iff_ne_none.mpr hsome⟩
      rw [hseqs, mem_range'_1] at hmem
      omega
    · rw [← hres]
      simp
  · rintro ⟨n, s, hfollowed, habove, rfl, rfl⟩
    have hseqs : b.listing (envelopeAfter cursor.baseSeq) =
        range' (cursor.baseSeq + 1) (n - cursor.baseSeq) := by
      refine Store.listing_eq envelopeAfter_numbering pairwise_lt_range' fun m => ?_
      rw [← Store.mem_listing, mem_envelopesAfter, mem_range'_1]
      constructor
      · intro h
        exact ⟨by omega, hfollowed.stored (by omega) (by omega)⟩
      · rintro ⟨hlt, hsome⟩
        have hn : m ≤ n := by
          by_contra hgt
          rw [habove m (by omega)] at hsome
          cases hsome
        omega
    obtain ⟨ds, hread, hlen, hloop⟩ := @loop_of_followed _ _ _ _ _ pre name _ _ hfollowed
    have hle := hfollowed.le
    simp only [hseqs, hread, hloop, hlen]
    rw [Nat.add_sub_cancel' hle]

/-- A follower refuses a first envelope whose delta does not apply to the base. -/
theorem reconstruct_refused (pre name : String) {stored : Bytes} {payload : DeltaPayloadV1}
    (hget : b.get (.envelope (cursor.baseSeq + 1)) = some stored) (hdecode : decodeEnvelope cr stored = .ok payload)
    (hbad : ∀ step, applyChangesetToDb ph payload.ltxPayload base (computeChecksumFromFile ph base) ≠ .ok step) :
    ∃ e, reconstructFencedFollower cr ph pre name b cursor base = .error e := by
  cases h : reconstructFencedFollower cr ph pre name b cursor base with
  | error e => exact ⟨e, rfl⟩
  | ok res =>
    obtain ⟨n, s, hfollowed, habove, -, -⟩ := reconstruct_ok_iff.mp h
    have hlt : cursor.baseSeq < n := by
      by_contra hle
      rw [habove (cursor.baseSeq + 1) (by omega)] at hget
      cases hget
    obtain ⟨stored', payload', step, hget', hdecode', happly⟩ := hfollowed.first hlt
    obtain rfl := Option.some.inj (hget.symm.trans hget')
    obtain rfl := Except.ok.inj (hdecode.symm.trans hdecode')
    exact absurd happly (hbad step)

end Follower

end Sync
end Walrust
