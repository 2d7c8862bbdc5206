import Mathlib.Logic.Function.Iterate
import Mathlib.Logic.Relation
import Mathlib.Order.WellFounded
import Walrust.Hadbp

/-!
# `Walrust.Sync.Download` — downloads in parallel

A pull downloads the changesets it has found before it looks at any of them. `download_parallel` keeps a set of
downloads in flight, which complete in any order, and pushes the next one whenever one has completed. What the pull
does next, one link of the checksum chain after the other, relies on the order of the results.

* `Downloads`, `Downloads.start`, `Downloads.Step` — the function between two completions;
* `Downloads.Going` — what holds there, in every run;
* `download_parallel_ordered` — every run ends, with the outcome of each file in its place.
-/

namespace Walrust
namespace Sync

open List Relation

/-- What `storage.get` answers: an error, or the object if there is one. -/
abbrev Got := Except String (Option Bytes)

/-- `download_one`, with the answer of the storage. -/
def downloadOne (key : String) : Got → Except String Bytes
  | .error e => .error e
  | .ok none => .error s!"key {key} not found"
  | .ok (some bytes) => .ok bytes

/-- `download_parallel` where it waits for a download. -/
structure Downloads where
  nextIdx : Nat
  /-- The downloads in flight: the index and the key each was pushed with. -/
  pending : List (Nat × String)
  results : List (Option (Except String Bytes))
  /-- The keys asked of the storage so far. -/
  issued : List String

namespace Downloads

/-- `pending.push(download_one(..))` and `next_idx += 1`, as long as there is a next file. -/
def refill (files : List String) (s : Downloads) : Downloads :=
  match files[s.nextIdx]? with
  | none => s
  | some key =>
    { s with nextIdx := s.nextIdx + 1, pending := s.pending ++ [(s.nextIdx, key)], issued := s.issued ++ [key] }

/-- Nothing is asked for yet. -/
def empty (files : List String) : Downloads := ⟨0, [], files.map fun _ => none, []⟩

/-- Up to the first wait. Without files the call returns at once, and one file is fetched without the set. -/
def start (files : List String) (concurrency : Nat) : Downloads :=
  match files with
  | [] => ⟨0, [], [], []⟩
  | [key] => ⟨1, [(0, key)], [none], [key]⟩
  | files => (refill files)^[concurrency] (empty files)

/-- `results[idx] = Some(data)`. -/
def record (got : Nat → Got) (s : Downloads) (p : Nat × String) : Downloads :=
  { s with
    pending := s.pending.erase p
    results := s.results.set p.1 (some (downloadOne p.2 (got p.1))) }

/-- The second loop: any download in flight may be the next to complete, and the next file takes its place. The storage
    answers the `i`-th download with `got i`. -/
inductive Step (files : List String) (got : Nat → Got) : Downloads → Downloads → Prop
  | complete {s : Downloads} {p : Nat × String} : p ∈ s.pending → Step files got s (refill files (s.record got p))

/-- What the call returns when nothing is in flight; none if it panics for a missing result. -/
def finish (s : Downloads) : Option (List (Except String Bytes)) := s.results.mapM id

variable {files : List String} {concurrency : Nat} {got : Nat → Got} {s t : Downloads}

/-- What is left to do. -/
def remaining (files : List String) (s : Downloads) : Nat := s.pending.length + (files.length - s.nextIdx)

theorem Step.remaining_lt (h : Step files got s t) : t.remaining files < s.remaining files := by
  cases h with | @complete p hp
  have hlength : (s.record got p).pending.length + 1 = s.pending.length := length_erase_add_one hp
  unfold remaining refill
  cases hnext : files[(s.record got p).nextIdx]? with
  | none => exact Nat.add_lt_add_right (Nat.lt_of_succ_le hlength.le) _
  | some key =>
    obtain ⟨hlt, -⟩ := List.getElem?_eq_some_iff.mp hnext
    simp only [length_append, length_singleton, hlength]
    exact Nat.add_lt_add_left (Nat.sub_lt_sub_left hlt (lt_add_one _)) _

/-- Between two completions: what has been asked for is in flight or has its result. -/
structure Going (files : List String) (concurrency : Nat) (got : Nat → Got) (s : Downloads) : Prop where
  next : s.nextIdx ≤ files.length
  issued : s.issued = files.take s.nextIdx
  bound : s.pending.length ≤ concurrency
  length : s.results.length = files.length
  keys : ∀ p ∈ s.pending, files[p.1]? = some p.2
  settled : ∀ i key, i < s.nextIdx → files[i]? = some key →
    (i, key) ∈ s.pending ∨ s.results[i]? = some (some (downloadOne key (got i)))

theorem Going.refill (h : Going files concurrency got s) (hroom : s.pending.length < concurrency) :
    Going files concurrency got (s.refill files) := by
  unfold Downloads.refill
  cases hkey : files[s.nextIdx]? with
  | none => exact h
  | some key =>
    obtain ⟨hlt, hget⟩ := List.getElem?_eq_some_iff.mp hkey
    refine ⟨hlt, ?_, (length_append ..).trans_le hroom, h.length, ?_, ?_⟩
    · show s.issued ++ [key] = files.take (s.nextIdx + 1)
      rw [h.issued, take_succ_eq_append_getElem hlt, hget]
    · intro p hp
      rcases mem_append.mp hp with hp | hp
      · exact h.keys p hp
      · cases mem_singleton.mp hp
        exact hkey
    · intro i k hi hk
      rcases Nat.lt_succ_iff_lt_or_eq.mp hi with hi | rfl
      · exact (h.settled i k hi hk).imp_left (mem_append_left _)
      · cases hkey.symm.trans hk
        exact .inl (mem_append_right _ (mem_singleton_self _))

theorem Going.record (h : Going files concurrency got s) {p : Nat × String} (hp : p ∈ s.pending) :
    Going files concurrency got (s.record got p) := by
  refine ⟨h.next, h.issued, (length_erase_le ..).trans h.bound, (length_set ..).trans h.length,
    fun q hq => h.keys q (mem_of_mem_erase hq), fun i key hi hkey => ?_⟩
  by_cases hidx : i = p.1
  · subst hidx
    obtain ⟨hlt, -⟩ := List.getElem?_eq_some_iff.mp hkey
    cases (h.keys p hp).symm.trans hkey
    exact .inr (getElem?_set_self (h.length ▸ hlt))
  · show _ ∨ (s.results.set _ _)[i]? = _
    rw [getElem?_set_ne (Ne.symm hidx)]
    refine (h.settled i key hi hkey).imp_left fun hmem => (mem_erase_of_ne ?_).mpr hmem
    rintro rfl
    exact hidx rfl

theorem Going.step (h : Going files concurrency got s) (hstep : Step files got s t) :
    Going files concurrency got t := by
  cases hstep with | complete hp
  exact (h.record hp).refill (Nat.lt_of_succ_le ((length_erase_add_one hp).trans_le h.bound))

theorem length_pending_refill : (s.refill files).pending.length ≤ s.pending.length + 1 := by
  unfold refill
  split
  · exact Nat.le_succ _
  · exact (length_append ..).le

theorem going_fill {rounds : Nat} (h : rounds ≤ concurrency) :
    Going files concurrency got ((refill files)^[rounds] (empty files)) ∧
      ((refill files)^[rounds] (empty files)).pending.length ≤ rounds := by
  induction rounds with
  | zero => exact ⟨⟨Nat.zero_le _, rfl, Nat.zero_le _, length_map _, nofun, nofun⟩, Nat.zero_le _⟩
  | succ rounds ih =>
    obtain ⟨hgoing, hle⟩ := ih (Nat.le_of_succ_le h)
    rw [Function.iterate_succ_apply']
    exact ⟨hgoing.refill (lt_of_le_of_lt hle h), length_pending_refill.trans (Nat.succ_le_succ hle)⟩

/-- While there is more to ask for, something is in flight. -/
def Full (files : List String) (s : Downloads) : Prop := s.nextIdx < files.length → s.pending ≠ []

theorem full_refill : Full files (s.refill files) := by
  unfold refill
  cases hnext : files[s.nextIdx]? with
  | none => exact fun hlt => absurd hlt (not_lt.mpr (getElem?_eq_none_iff.mp hnext))
  | some key => exact fun _ => by simp

theorem going_start (hc : 1 ≤ concurrency) :
    Going files concurrency got (start files concurrency) ∧ Full files (start files concurrency) := by
  have hempty := (@going_fill files _ got 0 (Nat.zero_le concurrency)).1
  obtain ⟨c, rfl⟩ := Nat.exists_eq_add_of_le' hc
  match files with
  | [] => exact ⟨hempty, nofun⟩
  | [key] => exact ⟨hempty.refill hc, fun _ => cons_ne_nil _ _⟩
  | a :: b :: rest =>
    refine ⟨(going_fill le_rfl).1, ?_⟩
    show Full _ ((refill _)^[c + 1] _)
    rw [Function.iterate_succ_apply']
    exact full_refill

theorem going_run (hc : 1 ≤ concurrency) (h : ReflTransGen (Step files got) (start files concurrency) s) :
    Going files concurrency got s ∧ Full files s := by
  induction h with
  | refl => exact going_start hc
  | tail _ hstep ih =>
    refine ⟨ih.1.step hstep, ?_⟩
    cases hstep with | complete hp
    exact full_refill

theorem Going.results_eq (h : Going files concurrency got s) (hall : s.nextIdx = files.length)
    (hempty : s.pending = []) : s.results = (files.mapIdx fun i key => downloadOne key (got i)).map some := by
  refine ext_getElem? fun i => ?_
  rw [getElem?_map, getElem?_mapIdx]
  cases hkey : files[i]? with
  | none => exact getElem?_eq_none (h.length.trans_le (getElem?_eq_none_iff.mp hkey))
  | some key =>
    obtain ⟨hlt, -⟩ := List.getElem?_eq_some_iff.mp hkey
    exact (h.settled i key (hall ▸ hlt) hkey).resolve_left (hempty ▸ not_mem_nil)

theorem mapM_id_map_some {α : Type} (l : List α) : (l.map some).mapM id = some l := by
  induction l with
  | nil => rfl
  | cons a l ih => rw [map_cons, mapM_cons, ih]; rfl

end Downloads

/-- **Parallel downloads keep their order.** Every run ends; in every state of a run at most `concurrency` downloads
    are in flight and what was asked for is a beginning of the files, one request for each; and where nothing is in
    flight every file was asked for, and the result has its outcome in its place. -/
theorem download_parallel_ordered (files : List String) (concurrency : Nat) (hc : 1 ≤ concurrency) (got : Nat → Got) :
    (WellFounded fun t s => Downloads.Step files got s t) ∧
      ∀ s, ReflTransGen (Downloads.Step files got) (Downloads.start files concurrency) s →
        s.pending.length ≤ concurrency ∧ s.issued <+: files ∧
        (s.pending ≠ [] → ∃ t, Downloads.Step files got s t) ∧
        (s.pending = [] → s.issued = files ∧
          s.finish = some (files.mapIdx fun i key => downloadOne key (got i))) := by
  refine ⟨Subrelation.wf (fun h => h.remaining_lt) (measure (Downloads.remaining files)).wf, fun s hrun => ?_⟩
  obtain ⟨h, hfull⟩ := Downloads.going_run hc hrun
  refine ⟨h.bound, h.issued ▸ take_prefix .., fun hpending => ?_, fun hpending => ?_⟩
  · obtain ⟨p, hp⟩ := exists_mem_of_ne_nil _ hpending
    exact ⟨_, .complete hp⟩
  · have hall : s.nextIdx = files.length := by
      by_contra hne
      exact hfull (lt_of_le_of_ne h.next hne) hpending
    refine ⟨?_, ?_⟩
    · rw [h.issued, hall, take_length]
    · rw [Downloads.finish, h.results_eq hall hpending, Downloads.mapM_id_map_some]

/-- Three files, two at a time, completed in the order 1, 2, 0; the second is not there. -/
theorem download_parallel_ordered_three :
    ∃ s, Downloads.finish s = some [.ok [1], .error "key b not found", .ok [3]] ∧ s.issued = ["a", "b", "c"] := by
  have h := (download_parallel_ordered ["a", "b", "c"] 2 (by decide) fun i =>
    if i = 1 then .ok none else .ok (some [UInt8.ofNat i + 1])).2 _
    (.tail (.tail (.tail .refl (.complete (p := (1, "b")) (by decide))) (.complete (p := (2, "c")) (by decide)))
      (.complete (p := (0, "a")) (by decide)))
  obtain ⟨hissued, hresult⟩ := h.2.2.2 rfl
  exact ⟨_, hresult, hissued⟩

end Sync
end Walrust
