import Walrust.Sync.Fenced
import Walrust.Compaction.Names

/-!
# `Walrust.Sync.Accessors` — two ways to an envelope

Envelopes are found by a listing or fetched by seq. The listing takes every name that reads as a seq, wherever it
lies below the directory, and refuses a payload of another seq; a fetch asks for the one emitted name and takes what
it finds. Here keys are what they are in the store, texts.

* `listTextEnvelopesAfter`, `fetchDeltaEnvelope` — the two accessors;
* `Holds` — what a decoded object says;
* `accessors_agree_iff` — they agree exactly if no emitted name is mislabelled and every other name that is read as a
  seq repeats the emitted one.
-/

namespace Walrust
namespace Sync

open Compaction Lib List

abbrev TextBucket := Store String Bytes

/-- `StorageBackend::list`: the keys under a directory, beyond a marker if there is one. -/
def TextBucket.list (b : TextBucket) (dir : String) (after : Option String) : List String :=
  b.keys.filter fun key => dir.toList.isPrefixOf key.toList && after.all (· < key)

/-- One round of the loop of `list_delta_envelopes_after`; none for a key that is passed over. -/
def readListed (cr : EnvelopeCrates) (b : TextBucket) (after : Nat) (key : String) :
    Except FollowError (Option DiscoveredDelta) :=
  match parseDeltaEnvelopeSeq key with
  | none => .ok none
  | some seq =>
    if seq ≤ after then .ok none
    else
      match b.get key with
      | none => .ok none
      | some bytes =>
        match decodeEnvelope cr bytes with
        | .error e => .error (.other s!"decode delta at {key}: {e.message}")
        | .ok payload =>
          if payload.seq ≠ seq then
            .error (.integrity (s!"delta envelope seq mismatch at {key}: " ++
              s!"key seq {seq} but payload seq {payload.seq}"))
          else .ok (some ⟨seq, payload, cr.blake3 bytes⟩)

def readAllListed (cr : EnvelopeCrates) (b : TextBucket) (after : Nat) :
    List String → Except FollowError (List DiscoveredDelta)
  | [] => .ok []
  | key :: rest =>
    match readListed cr b after key, readAllListed cr b after rest with
    | .error e, _ => .error e
    | _, .error e => .error e
    | .ok d, .ok ds => .ok (d.toList ++ ds)

/-- The keys `list_delta_envelopes_after` goes through. -/
def listedKeys (pre name : String) (b : TextBucket) (after : Nat) : List String :=
  b.list (liveDir pre name) (if 0 < after then some (deltaEnvelopeKey pre name after) else none)

section

variable (cr : EnvelopeCrates) (pre name : String) (b : TextBucket)

/-- `list_delta_envelopes_after`, over texts. -/
def listTextEnvelopesAfter (after : Nat) :
    Except FollowError (List DiscoveredDelta) :=
  match readAllListed cr b after (listedKeys pre name b after) with
  | .error e => .error e
  | .ok ds => .ok (ds.mergeSort fun d d' => d.seq ≤ d'.seq)

/-- `fetch_delta_envelope`. -/
def fetchDeltaEnvelope (seq : Nat) :
    Except FollowError (Option DiscoveredDelta) :=
  match b.get (deltaEnvelopeKey pre name seq) with
  | none => .ok none
  | some bytes =>
    match decodeEnvelope cr bytes with
    | .error e => .error (.other s!"decode delta at {deltaEnvelopeKey pre name seq}: {e.message}")
    | .ok payload => .ok (some ⟨seq, payload, cr.blake3 bytes⟩)

end

section

variable {cr : EnvelopeCrates} {pre name key : String} {b : TextBucket} {after seq : Nat} {d : DiscoveredDelta}

/-- The object under a key is an envelope with this payload and checksum. -/
def Holds (cr : EnvelopeCrates) (b : TextBucket) (key : String) (payload : DeltaPayloadV1) (checksum : Bytes) : Prop :=
  ∃ bytes, b.get key = some bytes ∧ decodeEnvelope cr bytes = .ok payload ∧ cr.blake3 bytes = checksum

theorem fetch_iff : fetchDeltaEnvelope cr pre name b seq = .ok (some d) ↔
    d.seq = seq ∧ Holds cr b (deltaEnvelopeKey pre name seq) d.payload d.envelopeChecksum := by
  unfold fetchDeltaEnvelope Holds
  obtain ⟨dseq, payload, checksum⟩ := d
  cases b.get (deltaEnvelopeKey pre name seq) with
  | none => simp
  | some bytes => cases hdecode : decodeEnvelope cr bytes <;> simp [hdecode, eq_comm]

theorem readListed_iff : readListed cr b after key = .ok (some d) ↔
    parseDeltaEnvelopeSeq key = some d.seq ∧ after < d.seq ∧ d.payload.seq = d.seq ∧
      Holds cr b key d.payload d.envelopeChecksum := by
  unfold readListed Holds
  obtain ⟨dseq, payload, checksum⟩ := d
  cases parseDeltaEnvelopeSeq key with
  | none => simp
  | some seq =>
    by_cases hafter : seq ≤ after
    · simp only [if_pos hafter]
      constructor
      · intro h
        cases h
      · rintro ⟨⟨⟩, hlt, -⟩
        exact absurd hafter (not_le.mpr hlt)
    · simp only [if_neg hafter]
      cases b.get key with
      | none => simp
      | some bytes =>
        cases hdecode : decodeEnvelope cr bytes with
        | error e => simp [hdecode]
        | ok payload' => by_cases hseq : payload'.seq = seq <;> grind

/-- A listing that succeeds has read every key, and has what they added. -/
theorem readAllListed_ok {keys : List String} {ds : List DiscoveredDelta} (h : readAllListed cr b after keys = .ok ds) :
    (∀ key ∈ keys, ∃ d, readListed cr b after key = .ok d) ∧
      ∀ d, d ∈ ds ↔ ∃ key ∈ keys, readListed cr b after key = .ok (some d) := by
  induction keys generalizing ds with
  | nil =>
    cases h
    simp
  | cons key rest ih =>
    unfold readAllListed at h
    split at h
    · cases h
    · cases h
    · next d ds' hread hrest =>
      cases h
      obtain ⟨hall, hmem⟩ := ih hrest
      refine ⟨forall_mem_cons.mpr ⟨⟨d, hread⟩, hall⟩, fun d' => ?_⟩
      rw [mem_append, hmem, Option.mem_toList, exists_mem_cons_iff, hread]
      simp

/-- The emitted name of a seq beyond the marker is listed. -/
theorem mem_listedKeys_emitted {after seq : UInt64} (hlt : after < seq)
    (hstored : (b.get (deltaEnvelopeKey pre name seq.toNat)).isSome) :
    deltaEnvelopeKey pre name seq.toNat ∈ listedKeys pre name b after.toNat := by
  refine mem_filter.mpr ⟨Store.mem_keys.mpr hstored, ?_⟩
  rw [Bool.and_eq_true]
  constructor
  · rw [deltaEnvelopeKey_eq, String.toList_append, isPrefixOf_iff_prefix]
    exact prefix_append ..
  · split
    · exact decide_eq_true ((deltaEnvelopeKey_lt_iff after.toNat_lt seq.toNat_lt pre name).mpr hlt)
    · rfl

end

/-- **The two accessors enforce the same binding and agree exactly if no emitted name holds a payload of another seq,
    and every name that is read as a seq holds what the emitted name of that seq holds.** -/
theorem accessors_agree_iff (cr : EnvelopeCrates) (pre name : String) (b : TextBucket) (after : UInt64) :
    ((∀ (seq : UInt64) d, fetchDeltaEnvelope cr pre name b seq.toNat = .ok (some d) → d.payload.seq = seq.toNat) ∧
      ∀ ds, listTextEnvelopesAfter cr pre name b after.toNat = .ok ds → (∀ d ∈ ds, d.payload.seq = d.seq) ∧
        ∀ seq : UInt64, after < seq → ∀ d, d.seq = seq.toNat →
          (fetchDeltaEnvelope cr pre name b seq.toNat = .ok (some d) ↔ d ∈ ds)) ↔
    (∀ (seq : UInt64) payload checksum,
      Holds cr b (deltaEnvelopeKey pre name seq.toNat) payload checksum → payload.seq = seq.toNat) ∧
    ((∃ ds, listTextEnvelopesAfter cr pre name b after.toNat = .ok ds) →
      ∀ key ∈ listedKeys pre name b after.toNat, ∀ seq : UInt64, after < seq →
        parseDeltaEnvelopeSeq key = some seq.toNat → ∀ payload checksum, Holds cr b key payload checksum →
          Holds cr b (deltaEnvelopeKey pre name seq.toNat) payload checksum) := by
  have hlisted : ∀ {ds}, listTextEnvelopesAfter cr pre name b after.toNat = .ok ds →
      (∀ key ∈ listedKeys pre name b after.toNat, ∃ d, readListed cr b after.toNat key = .ok d) ∧
        ∀ d, d ∈ ds ↔ ∃ key ∈ listedKeys pre name b after.toNat, readListed cr b after.toNat key = .ok (some d) := by
    intro ds h
    unfold listTextEnvelopesAfter at h
    split at h
    · cases h
    · next ds' hread =>
      cases h
      simpa only [mem_mergeSort] using readAllListed_ok hread
  constructor
  · rintro ⟨hfetch, hlist⟩
    refine ⟨fun seq payload checksum hholds => hfetch seq ⟨seq.toNat, payload, checksum⟩ (fetch_iff.mpr ⟨rfl, hholds⟩),
      fun ⟨ds, hds⟩ key hkey seq hlt hparse payload checksum hholds => ?_⟩
    obtain ⟨hall, hmem⟩ := hlisted hds
    -- The round of this key has not failed, so the payload is of the seq of the key.
    have hround : readListed cr b after.toNat key = .ok (some ⟨seq.toNat, payload, checksum⟩) := by
      obtain ⟨bytes, hget, hdecode, hchecksum⟩ := hholds
      obtain ⟨d, hd⟩ := hall key hkey
      have hbeyond : ¬ seq.toNat ≤ after.toNat := not_le.mpr hlt
      unfold readListed at hd ⊢
      simp only [hparse, hget, hdecode, if_neg hbeyond] at hd ⊢
      split at hd
      · cases hd
      · rw [if_neg ‹_›, hchecksum]
    have hin := (hmem _).mpr ⟨key, hkey, hround⟩
    exact (fetch_iff.mp (((hlist ds hds).2 seq hlt _ rfl).mpr hin)).2
  · rintro ⟨hlabel, hnames⟩
    refine ⟨fun seq d h => hlabel seq d.payload _ (fetch_iff.mp h).2, fun ds hds => ?_⟩
    obtain ⟨hall, hmem⟩ := hlisted hds
    constructor
    · intro d hd
      obtain ⟨key, -, hread⟩ := (hmem d).mp hd
      exact (readListed_iff.mp hread).2.2.1
    intro seq hlt d hseq
    rw [fetch_iff, hmem]
    constructor
    · rintro ⟨-, hholds⟩
      have hstored : (b.get (deltaEnvelopeKey pre name seq.toNat)).isSome := by
        obtain ⟨bytes, hget, -⟩ := hholds
        rw [hget]
        rfl
      refine ⟨_, mem_listedKeys_emitted hlt hstored, readListed_iff.mpr ⟨?_, hseq ▸ hlt, ?_, hholds⟩⟩
      · rw [hseq]
        exact parseDeltaEnvelopeSeq_deltaEnvelopeKey seq.toNat_lt pre name
      · rw [hseq]
        exact hlabel seq _ _ hholds
    · rintro ⟨key, hkey, hread⟩
      obtain ⟨hparse, -, -, hholds⟩ := readListed_iff.mp hread
      exact ⟨hseq, hnames ⟨ds, hds⟩ key hkey seq hlt (hseq ▸ hparse) _ _ hholds⟩

/-- The envelope of seq 7 under the name of seq 5. -/
def mislabelled : DeltaPayloadV1 := ⟨7, 1, "w", replicate 32 0, 1, replicate 256 0⟩

/-- **A fetch returns a mislabelled envelope that every listing refuses.** -/
theorem fetch_mislabelled : ∃ (cr : EnvelopeCrates) (b : TextBucket), cr.RoundTrips ∧
    (∃ d, fetchDeltaEnvelope cr "" "db" b 5 = .ok (some d) ∧ d.payload.seq = 7) ∧
    ∃ msg, listTextEnvelopesAfter cr "" "db" b 0 = .error (.integrity msg) := by
  obtain ⟨cr, envelope, hround, hencode⟩ := exists_crates mislabelled []
  have hdecode := decodeEnvelope_encode hround (EnvelopeCrates.codec_encode.mp hencode)
  have hparse : parseDeltaEnvelopeSeq (deltaEnvelopeKey "" "db" 5) = some 5 :=
    parseDeltaEnvelopeSeq_deltaEnvelopeKey (by decide) "" "db"
  generalize hb : (Store.empty.put (deltaEnvelopeKey "" "db" 5) envelope : TextBucket) = b
  have hget : b.get (deltaEnvelopeKey "" "db" 5) = some envelope := by
    rw [← hb, Store.get_put_self]
  have hkeys : listedKeys "" "db" b 0 = [deltaEnvelopeKey "" "db" 5] := by
    have hmem := @mem_listedKeys_emitted "" "db" b 0 5 (by decide)
      (by rw [show (5 : UInt64).toNat = 5 from rfl, hget]; rfl)
    rw [← hb] at hmem ⊢
    exact filter_eq_self.mpr fun key hkey => by
      rw [mem_singleton.mp hkey]
      exact (mem_filter.mp hmem).2
  refine ⟨cr, b, hround, ⟨⟨5, mislabelled, _⟩, fetch_iff.mpr ⟨rfl, envelope, hget, hdecode, rfl⟩, rfl⟩, ?_⟩
  simp only [listTextEnvelopesAfter, hkeys, readAllListed, readListed, hparse, hget, hdecode]
  exact ⟨_, rfl⟩

end Sync
end Walrust
