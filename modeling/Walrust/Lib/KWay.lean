import Mathlib.Algebra.GroupWithZero.Nat
import Mathlib.Order.Basic
import Mathlib.Data.List.Induction
import Mathlib.Tactic.Common
import Mathlib.Tactic.Order

/-!
# `Walrust.Lib.KWay` — k-way merge of ascending streams, last writer wins

Several streams, each ascending in a key, are merged through a *frontier* that holds one entry per stream.
The least entry is popped, its stream is advanced, and runs of equal keys are collapsed to the entry of the
latest stream. Nothing here knows what the entries are.

* `popMin` / `drain` — the frontier machine and the sequence of entries it pops;
* `drain_sorted`, `mem_drain` — the popped sequence is ascending and contains every entry exactly once the
  frontier covers the streams (`Covered`);
* `collapse` — the pending-slot pass over the popped sequence;
* `mem_collapse` — **the merge law**: the collapsed output holds, for every key, the item of the last stream
  that has the key (`lastWriter`).
-/

namespace Lib.KWay

open List

variable {fuel i : ℕ}

/-- How stream items become frontier entries: an entry remembers its item and the index of the stream it
    came from, and is ordered by key first and stream index second. -/
structure Tagging (α ε κ : Type) where
  itemKey : α → κ
  tag : ℕ → α → ε
  key : ε → κ
  order : ε → ℕ
  item : ε → α
  key_tag : ∀ i a, key (tag i a) = itemKey a
  order_tag : ∀ i a, order (tag i a) = i
  item_tag : ∀ i a, item (tag i a) = a

attribute [simp] Tagging.key_tag Tagging.order_tag Tagging.item_tag

variable {α ε κ : Type} [LinearOrder κ] (T : Tagging α ε κ) {rest' : List (List α)}

/-! ## The frontier -/

/-- Entries compare by key, then by stream index. -/
def Tagging.Le (a b : ε) : Prop :=
  T.key a < T.key b ∨ T.key a = T.key b ∧ T.order a ≤ T.order b

instance (a b : ε) : Decidable (T.Le a b) := inferInstanceAs (Decidable (_ ∨ _))

theorem Tagging.le_total (a b : ε) : T.Le a b ∨ T.Le b a := by
  rcases lt_trichotomy (T.key a) (T.key b) with h | h | h
  · exact .inl (.inl h)
  · rcases Nat.le_total (T.order a) (T.order b) with ho | ho
    · exact .inl (.inr ⟨h, ho⟩)
    · exact .inr (.inr ⟨h.symm, ho⟩)
  · exact .inr (.inl h)

theorem Tagging.le_trans {a b c : ε} (hab : T.Le a b) (hbc : T.Le b c) : T.Le a c := by
  rcases hab with h | ⟨h, ho⟩ <;> rcases hbc with h' | ⟨h', ho'⟩
  · exact .inl (lt_trans h h')
  · exact .inl (h' ▸ h)
  · exact .inl (h ▸ h')
  · exact .inr ⟨h.trans h', ho.trans ho'⟩

theorem Tagging.le_refl (a : ε) : T.Le a a := .inr ⟨rfl, Nat.le_refl _⟩

theorem Tagging.Le.key_le {T : Tagging α ε κ} {a b : ε} (h : T.Le a b) : T.key a ≤ T.key b := by
  rcases h with h | h
  · exact le_of_lt h
  · exact le_of_eq h.1

/-- Remove the least entry of the frontier. -/
def popMin : List ε → Option (ε × List ε)
  | [] => none
  | e :: es =>
    match popMin es with
    | none => some (e, [])
    | some (m, rest) => if T.Le e m then some (e, es) else some (m, e :: rest)

theorem popMin_eq_none {heap : List ε} : popMin T heap = none ↔ heap = [] := by
  cases heap with
  | nil => simp [popMin]
  | cons e es =>
    simp only [popMin]
    split
    · simp
    · split <;> simp

/-- What a pop returns: a least entry, and the other entries unchanged. -/
theorem popMin_some {heap rest : List ε} {m : ε} (h : popMin T heap = some (m, rest)) :
    heap.Perm (m :: rest) ∧ ∀ e ∈ heap, T.Le m e := by
  induction heap generalizing m rest with
  | nil => simp [popMin] at h
  | cons e es ih =>
    simp only [popMin] at h
    split at h
    case h_1 hn =>
      rw [popMin_eq_none] at hn
      subst hn
      obtain ⟨rfl, rfl⟩ := h
      exact ⟨List.Perm.refl _, by simpa using T.le_refl e⟩
    case h_2 m' rest' hs =>
      obtain ⟨hperm, hmin⟩ := ih hs
      split at h
      case isTrue hle =>
        obtain ⟨rfl, rfl⟩ := h
        refine ⟨List.Perm.refl _, fun x hx => ?_⟩
        rcases mem_cons.mp hx with rfl | hx
        · exact T.le_refl _
        · exact T.le_trans hle (hmin x hx)
      case isFalse hle =>
        simp only [Option.some.injEq, Prod.mk.injEq] at h
        obtain ⟨rfl, rfl⟩ := h
        refine ⟨(hperm.cons e).trans (List.Perm.swap _ _ _), fun x hx => ?_⟩
        rcases mem_cons.mp hx with rfl | hx
        · exact (T.le_total m' x).resolve_right hle
        · exact hmin x hx

/-- Take the next item of stream `i`, if it has one. -/
def next (rest : List (List α)) (i : ℕ) : Option α × List (List α) :=
  match rest[i]? with
  | some (a :: as) => (some a, rest.set i as)
  | _ => (none, rest)

/-- Put an item just read from stream `i` on the frontier. -/
def push (i : ℕ) : Option α → List ε → List ε
  | some a, heap => T.tag i a :: heap
  | none, heap => heap

/-- The entries the frontier machine pops, in order, for at most `fuel` pops. -/
def drain : ℕ → List ε → List (List α) → List ε
  | 0, _, _ => []
  | fuel + 1, heap, rest =>
    match popMin T heap with
    | none => []
    | some (m, heap') =>
      let (a, rest') := next rest (T.order m)
      m :: drain fuel (push T (T.order m) a heap') rest'

/-- The entries that are still unread in the streams. -/
def Unread (rest : List (List α)) (e : ε) : Prop :=
  ∃ i as a, rest[i]? = some as ∧ a ∈ as ∧ e = T.tag i a

/-- The number of entries left, in the frontier and unread. -/
def left (heap : List ε) (rest : List (List α)) : ℕ :=
  heap.length + (rest.map List.length).sum

/-- **The frontier covers the streams**: what is unread is ascending, and every stream with unread items
    has an entry on the frontier that comes strictly before all of them. -/
structure Covered (heap : List ε) (rest : List (List α)) : Prop where
  ascending : ∀ (i : ℕ) (as : List α), rest[i]? = some as →
    as.Pairwise (fun a b => T.itemKey a < T.itemKey b)
  covered : ∀ (i : ℕ) (as : List α), rest[i]? = some as → as ≠ [] →
    ∃ e ∈ heap, T.order e = i ∧ ∀ a ∈ as, T.key e < T.itemKey a

/-! ## One pop -/

theorem next_some {rest : List (List α)} {a : α} (h : next rest i = (some a, rest')) :
    ∃ as, rest[i]? = some (a :: as) ∧ rest' = rest.set i as := by
  unfold next at h
  split at h
  · rename_i b as hi
    obtain ⟨rfl, rfl⟩ := h
    exact ⟨as, hi, rfl⟩
  · simp at h

theorem next_none {rest : List (List α)} (h : next rest i = (none, rest')) :
    rest' = rest ∧ ∀ as, rest[i]? = some as → as = [] := by
  unfold next at h
  split at h
  · simp at h
  rename_i hne
  simp only [Prod.mk.injEq, true_and] at h
  refine ⟨h.symm, fun as has => ?_⟩
  cases as with
  | nil => rfl
  | cons b bs => exact absurd has (hne b bs)

theorem length_next {rest : List (List α)} {a : Option α} (h : next rest i = (a, rest')) :
    rest'.length = rest.length := by
  cases a with
  | none => rw [(next_none h).1]
  | some a =>
    obtain ⟨as, -, rfl⟩ := next_some h
    exact length_set

/-- A read leaves every stream as it was, or without its first item. -/
theorem mem_next {rest : List (List α)} {a : Option α} {bs : List α} (h : next rest i = (a, rest'))
    (hbs : bs ∈ rest') : ∃ as ∈ rest, bs <:+ as := by
  cases a with
  | none => exact ⟨bs, (next_none h).1 ▸ hbs, suffix_rfl⟩
  | some a =>
    obtain ⟨as, has, rfl⟩ := next_some h
    rcases mem_or_eq_of_mem_set hbs with hold | rfl
    · exact ⟨bs, hold, suffix_rfl⟩
    · exact ⟨_, mem_of_getElem? has, suffix_cons _ _⟩

variable {T} {heap heap' ts : List ε} {rest streams : List (List α)} {m e p : ε} {a : Option α}

theorem Covered.rest_nil (hc : Covered T [] rest) {as : List α} (has : as ∈ rest) : as = [] := by
  by_contra hne
  obtain ⟨i, hi⟩ := mem_iff_getElem?.mp has
  obtain ⟨f, hf, -⟩ := hc.covered i as hi hne
  cases hf

theorem Covered.not_unread (hc : Covered T [] rest) : ¬ Unread T rest e := by
  rintro ⟨i, as, x, hi, hx, rfl⟩
  rw [hc.rest_nil (mem_of_getElem? hi)] at hx
  cases hx

/-- Popping an entry and advancing its stream keeps the streams covered. -/
theorem Covered.step (hc : Covered T heap rest) (hpop : popMin T heap = some (m, heap'))
    (hnext : next rest (T.order m) = (a, rest')) :
    Covered T (push T (T.order m) a heap') rest' := by
  have hperm := (popMin_some T hpop).1
  -- an entry of another stream is still on the frontier after the pop
  have hkeep : ∀ e ∈ heap, T.order e ≠ T.order m → e ∈ heap' := fun e he hne => by
    rcases mem_cons.mp (hperm.mem_iff.mp he) with rfl | h
    · exact absurd rfl hne
    · exact h
  cases a with
  | none =>
    obtain ⟨rfl, hnil⟩ := next_none hnext
    refine ⟨hc.ascending, fun i as hi hne => ?_⟩
    obtain ⟨e, he, ho, hlt⟩ := hc.covered i as hi hne
    refine ⟨e, hkeep e he (fun heq => hne (hnil as ?_)), ho, hlt⟩
    rw [← heq, ho]; exact hi
  | some b =>
    obtain ⟨bs, hb, rfl⟩ := next_some hnext
    have hlen : T.order m < rest.length := by
      by_contra hge
      simp [List.getElem?_eq_none (not_lt.mp hge)] at hb
    have hasc := hc.ascending _ _ hb
    refine ⟨fun i as hi => ?_, fun i as hi hne => ?_⟩
    · by_cases him : T.order m = i
      · subst him
        rw [List.getElem?_set_self hlen, Option.some.injEq] at hi
        exact hi ▸ hasc.of_cons
      · rw [List.getElem?_set_ne him] at hi
        exact hc.ascending i as hi
    · by_cases him : T.order m = i
      · subst him
        rw [List.getElem?_set_self hlen, Option.some.injEq] at hi
        subst hi
        refine ⟨T.tag (T.order m) b, by simp [push], by simp, fun x hx => ?_⟩
        simpa using rel_of_pairwise_cons hasc hx
      · rw [List.getElem?_set_ne him] at hi
        obtain ⟨e, he, ho, hlt⟩ := hc.covered i as hi hne
        refine ⟨e, ?_, ho, hlt⟩
        simp only [push, mem_cons]
        exact .inr (hkeep e he (fun heq => him (by rw [← heq, ho])))

/-- A pop moves exactly one entry out; every other entry stays, on the frontier or unread. -/
theorem mem_step (hpop : popMin T heap = some (m, heap')) (hnext : next rest (T.order m) = (a, rest'))
    (e : ε) : (e ∈ heap ∨ Unread T rest e) ↔
      e = m ∨ e ∈ push T (T.order m) a heap' ∨ Unread T rest' e := by
  have hperm := (popMin_some T hpop).1
  rw [hperm.mem_iff, mem_cons]
  cases a with
  | none =>
    obtain ⟨rfl, -⟩ := next_none hnext
    simp only [push, or_assoc]
  | some b =>
    obtain ⟨bs, hb, rfl⟩ := next_some hnext
    have hlen : T.order m < rest.length := by
      by_contra hge
      simp [List.getElem?_eq_none (not_lt.mp hge)] at hb
    have hun : Unread T rest e ↔
        e = T.tag (T.order m) b ∨ Unread T (rest.set (T.order m) bs) e := by
      constructor
      · rintro ⟨i, as, x, hi, hx, rfl⟩
        by_cases him : T.order m = i
        · subst him
          rw [hb, Option.some.injEq] at hi
          subst hi
          rcases mem_cons.mp hx with rfl | hx
          · exact .inl rfl
          · exact .inr ⟨_, bs, x, by simp [hlen], hx, rfl⟩
        · exact .inr ⟨i, as, x, by rw [List.getElem?_set_ne him]; exact hi, hx, rfl⟩
      · rintro (rfl | ⟨i, as, x, hi, hx, rfl⟩)
        · exact ⟨_, _, b, hb, mem_cons_self, rfl⟩
        · by_cases him : T.order m = i
          · subst him
            simp only [List.getElem?_set_self hlen, Option.some.injEq] at hi
            subst hi
            exact ⟨_, _, x, hb, mem_cons_of_mem _ hx, rfl⟩
          · rw [List.getElem?_set_ne him] at hi
            exact ⟨i, as, x, hi, hx, rfl⟩
    simp only [push, mem_cons]
    tauto

theorem sum_length_set {rest : List (List α)} {b : α} {bs : List α} (h : rest[i]? = some (b :: bs)) :
    (rest.map List.length).sum = ((rest.set i bs).map List.length).sum + 1 := by
  induction rest generalizing i with
  | nil => simp at h
  | cons r rs ih =>
    cases i with
    | zero =>
      simp only [List.getElem?_cons_zero, Option.some.injEq] at h
      subst h
      simp only [map_cons, length_cons, sum_cons, set_cons_zero]
      omega
    | succ i =>
      have := ih (i := i) (by simpa using h)
      simp only [map_cons, sum_cons, set_cons_succ]
      omega

theorem left_step (hpop : popMin T heap = some (m, heap')) (hnext : next rest (T.order m) = (a, rest')) :
    left heap rest = left (push T (T.order m) a heap') rest' + 1 := by
  have hlen := (popMin_some T hpop).1.length_eq
  simp only [length_cons] at hlen
  cases a with
  | none =>
    obtain ⟨rfl, -⟩ := next_none hnext
    simp only [left, push]
    omega
  | some b =>
    obtain ⟨bs, hb, rfl⟩ := next_some hnext
    have := sum_length_set hb
    simp only [left, push, length_cons]
    omega

theorem heap_nil_of_left (h : left heap rest ≤ 0) : heap = [] := by
  apply length_eq_zero_iff.mp
  unfold left at h
  omega

/-! ## The popped sequence -/

/-- The popped entry comes before everything that is left. -/
theorem Covered.min_le (hc : Covered T heap rest) (hpop : popMin T heap = some (m, heap'))
    (he : e ∈ heap ∨ Unread T rest e) : T.Le m e := by
  have hmin := (popMin_some T hpop).2
  rcases he with he | ⟨i, as, x, hi, hx, rfl⟩
  · exact hmin e he
  · obtain ⟨f, hf, -, hlt⟩ := hc.covered i as hi (ne_nil_of_mem hx)
    exact T.le_trans (hmin f hf) (.inl (by simpa using hlt x hx))

theorem drain_pop (fuel : ℕ) (hpop : popMin T heap = some (m, heap')) (hnext : next rest (T.order m) = (a, rest')) :
    drain T (fuel + 1) heap rest = m :: drain T fuel (push T (T.order m) a heap') rest' := by
  simp only [drain, hpop, hnext]

/-- With enough fuel the machine pops exactly the entries it was given. -/
theorem mem_drain (hc : Covered T heap rest) (hfuel : left heap rest ≤ fuel) (e : ε) :
    e ∈ drain T fuel heap rest ↔ e ∈ heap ∨ Unread T rest e := by
  induction fuel generalizing heap rest with
  | zero =>
    obtain rfl := heap_nil_of_left hfuel
    simp [drain, hc.not_unread]
  | succ fuel ih =>
    cases hpop : popMin T heap with
    | none =>
      obtain rfl := (popMin_eq_none T).mp hpop
      simp [drain, popMin, hc.not_unread]
    | some p =>
      obtain ⟨m, heap'⟩ := p
      cases hn : next rest (T.order m) with
      | mk a rest' =>
        have hleft := left_step hpop hn
        rw [mem_step hpop hn e, drain_pop fuel hpop hn, mem_cons,
          ih (hc.step hpop hn) (by omega)]

theorem drain_sorted (hc : Covered T heap rest) (hfuel : left heap rest ≤ fuel) :
    (drain T fuel heap rest).Pairwise T.Le := by
  induction fuel generalizing heap rest with
  | zero => simp [drain]
  | succ fuel ih =>
    cases hpop : popMin T heap with
    | none => simp [drain, hpop]
    | some p =>
      obtain ⟨m, heap'⟩ := p
      cases hn : next rest (T.order m) with
      | mk a rest' =>
        have hleft := left_step hpop hn
        have hc' := hc.step hpop hn
        rw [drain_pop fuel hpop hn]
        refine pairwise_cons.mpr ⟨fun e he => ?_, ih hc' (by omega)⟩
        rw [mem_drain hc' (by omega)] at he
        exact hc.min_le hpop ((mem_step hpop hn e).mpr (.inr he))

/-! ## Collapsing runs of equal keys -/

/-- The pending-slot pass: keep one entry per key, replacing the pending one by an entry of the same key
    from the same or a later stream, and flush it when the key advances. -/
def collapse (T : Tagging α ε κ) : Option ε → List ε → List ε
  | none, [] => []
  | some p, [] => [p]
  | none, t :: ts => collapse T (some t) ts
  | some p, t :: ts =>
    if T.key p = T.key t then
      if T.order p ≤ T.order t then collapse T (some t) ts else collapse T (some p) ts
    else p :: collapse T (some t) ts

section

variable (hs : (p :: ts).Pairwise T.Le)
include hs

/-- Everything the pass emits comes from its input and wins its key. -/
theorem mem_collapse_some (he : e ∈ collapse T (some p) ts) :
    e ∈ p :: ts ∧ ∀ x ∈ p :: ts, T.key x = T.key e → T.order x ≤ T.order e := by
  induction ts generalizing p with
  | nil =>
    simp only [collapse, mem_singleton] at he
    subst he
    simp
  | cons t ts ih =>
    have hpt : T.Le p t := rel_of_pairwise_cons hs mem_cons_self
    simp only [collapse] at he
    split at he
    · rename_i hk
      have hle : T.order p ≤ T.order t := by
        rcases hpt with h | h
        · exact absurd hk (ne_of_lt h)
        · exact h.2
      rw [if_pos hle] at he
      obtain ⟨hmem, hwin⟩ := ih hs.of_cons he
      refine ⟨mem_cons_of_mem _ hmem, fun x hx hxe => ?_⟩
      rcases mem_cons.mp hx with rfl | hx
      · exact le_trans hle (hwin t mem_cons_self (hk ▸ hxe))
      · exact hwin x hx hxe
    · rename_i hk
      have hlt : T.key p < T.key t := lt_of_le_of_ne hpt.key_le hk
      rcases mem_cons.mp he with rfl | he
      · refine ⟨mem_cons_self, fun x hx hxe => ?_⟩
        rcases mem_cons.mp hx with rfl | hx
        · exact le_refl _
        · -- past the flushed entry every key is larger
          have htx : T.key t ≤ T.key x := by
            rcases mem_cons.mp hx with rfl | hx
            · exact le_refl _
            · exact (rel_of_pairwise_cons hs.of_cons hx).key_le
          exact absurd hxe (ne_of_gt (lt_of_lt_of_le hlt htx))
      · obtain ⟨hmem, hwin⟩ := ih hs.of_cons he
        refine ⟨mem_cons_of_mem _ hmem, fun x hx hxe => ?_⟩
        rcases mem_cons.mp hx with rfl | hx
        · have hte : T.key t ≤ T.key e := by
            rcases mem_cons.mp hmem with rfl | hmem
            · exact le_refl _
            · exact (rel_of_pairwise_cons hs.of_cons hmem).key_le
          exact absurd hxe (ne_of_lt (lt_of_lt_of_le hlt hte))
        · exact hwin x hx hxe

theorem key_le_of_mem_collapse (he : e ∈ collapse T (some p) ts) : T.key p ≤ T.key e := by
  rcases mem_cons.mp (mem_collapse_some hs he).1 with rfl | h
  · exact le_refl _
  · exact (rel_of_pairwise_cons hs h).key_le

/-- The pass emits every key of its input. -/
theorem exists_mem_collapse {x : ε} (hx : x ∈ p :: ts) :
    ∃ e ∈ collapse T (some p) ts, T.key e = T.key x := by
  induction ts generalizing p x with
  | nil => exact ⟨p, by simp [collapse], by simp at hx; rw [hx]⟩
  | cons t ts ih =>
    simp only [collapse]
    by_cases hk : T.key p = T.key t
    · have hle : T.order p ≤ T.order t := by
        rcases rel_of_pairwise_cons hs mem_cons_self with h | h
        · exact absurd hk (ne_of_lt h)
        · exact h.2
      rw [if_pos hk, if_pos hle]
      rcases mem_cons.mp hx with rfl | hx
      · rw [hk]
        exact ih hs.of_cons mem_cons_self
      · exact ih hs.of_cons hx
    · rw [if_neg hk]
      rcases mem_cons.mp hx with rfl | hx
      · exact ⟨x, mem_cons_self, rfl⟩
      · obtain ⟨e, he, hek⟩ := ih hs.of_cons hx
        exact ⟨e, mem_cons_of_mem _ he, hek⟩

theorem collapse_ascending :
    (collapse T (some p) ts).Pairwise (fun a b => T.key a < T.key b) := by
  induction ts generalizing p with
  | nil => simp [collapse]
  | cons t ts ih =>
    have hpt : T.Le p t := rel_of_pairwise_cons hs mem_cons_self
    simp only [collapse]
    split
    · rename_i hk
      have hle : T.order p ≤ T.order t := by
        rcases hpt with h | h
        · exact absurd hk (ne_of_lt h)
        · exact h.2
      rw [if_pos hle]
      exact ih hs.of_cons
    · rename_i hk
      have hlt : T.key p < T.key t := lt_of_le_of_ne hpt.key_le hk
      exact pairwise_cons.mpr
        ⟨fun e he => lt_of_lt_of_le hlt (key_le_of_mem_collapse hs.of_cons he), ih hs.of_cons⟩

end

/-! ## The merge of whole streams -/

/-- The frontier before the first pop: the first item of every non-empty stream. -/
def prime (T : Tagging α ε κ) : ℕ → List (List α) → List ε
  | _, [] => []
  | i, [] :: ss => prime T (i + 1) ss
  | i, (a :: _) :: ss => T.tag i a :: prime T (i + 1) ss

/-- The item a key has in the last stream that has the key. -/
def lastWriter (T : Tagging α ε κ) (streams : List (List α)) (k : κ) : Option α :=
  streams.foldl (fun acc s => (s.find? (fun a => T.itemKey a = k)).or acc) none

/-- Every stream is strictly ascending in its keys. -/
def Ascending (T : Tagging α ε κ) (streams : List (List α)) : Prop :=
  ∀ s ∈ streams, s.Pairwise (fun a b => T.itemKey a < T.itemKey b)

omit [LinearOrder κ] in
theorem mem_prime : e ∈ prime T i streams ↔ ∃ j a as, streams[j]? = some (a :: as) ∧ e = T.tag (i + j) a := by
  induction streams generalizing i with
  | nil => simp [prime]
  | cons s ss ih =>
    have hshift : (∃ j a as, ss[j]? = some (a :: as) ∧ e = T.tag (i + 1 + j) a) ↔
        ∃ j a as, (s :: ss)[j + 1]? = some (a :: as) ∧ e = T.tag (i + (j + 1)) a := by
      simp only [List.getElem?_cons_succ, Nat.add_assoc, Nat.add_comm 1]
    cases s with
    | nil =>
      rw [prime, ih, hshift]
      constructor
      · rintro ⟨j, a, as, h⟩; exact ⟨j + 1, a, as, h⟩
      · rintro ⟨j, a, as, h, he⟩
        cases j with
        | zero => simp at h
        | succ j => exact ⟨j, a, as, h, he⟩
    | cons b bs =>
      rw [prime, mem_cons, ih, hshift]
      constructor
      · rintro (rfl | ⟨j, a, as, h⟩)
        · exact ⟨0, b, bs, by simp⟩
        · exact ⟨j + 1, a, as, h⟩
      · rintro ⟨j, a, as, h, he⟩
        cases j with
        | zero =>
          simp only [List.getElem?_cons_zero, Option.some.injEq, List.cons.injEq] at h
          exact .inl (by simpa [h.1] using he)
        | succ j => exact .inr ⟨j, a, as, h, he⟩

/-- A frontier holding the first item of every stream covers what is left of the streams. -/
theorem covered_prime (hasc : Ascending T streams)
    (hheap : ∀ e ∈ prime T 0 streams, e ∈ heap) : Covered T heap (streams.map List.tail) := by
  refine ⟨fun i as hi => ?_, fun i as hi hne => ?_⟩
  · rw [List.getElem?_map, Option.map_eq_some_iff] at hi
    obtain ⟨s, hs, rfl⟩ := hi
    exact (hasc s (mem_of_getElem? hs)).tail
  · rw [List.getElem?_map, Option.map_eq_some_iff] at hi
    obtain ⟨s, hs, rfl⟩ := hi
    cases s with
    | nil => simp at hne
    | cons a as =>
      refine ⟨T.tag i a, hheap _ (mem_prime.mpr ⟨i, a, as, hs, by simp⟩), by simp, fun x hx => ?_⟩
      simpa using rel_of_pairwise_cons (hasc _ (mem_of_getElem? hs)) hx

omit [LinearOrder κ] in
theorem left_prime (i : ℕ) (streams : List (List α)) :
    left (prime T i streams) (streams.map List.tail) = (streams.map List.length).sum := by
  induction streams generalizing i with
  | nil => simp [left, prime]
  | cons s ss ih =>
    have := ih (i + 1)
    cases s <;> simp only [left, prime, map_cons, tail_nil, tail_cons, length_cons,
      sum_cons] at this ⊢ <;> omega

omit [LinearOrder κ] in
/-- The primed machine holds exactly the tagged items of the streams. -/
theorem mem_prime_or_unread :
    (e ∈ prime T 0 streams ∨ Unread T (streams.map List.tail) e) ↔
      ∃ i s a, streams[i]? = some s ∧ a ∈ s ∧ e = T.tag i a := by
  rw [mem_prime]
  constructor
  · rintro (⟨j, a, as, h, rfl⟩ | ⟨i, as, a, hi, ha, rfl⟩)
    · exact ⟨j, _, a, h, mem_cons_self, by simp⟩
    · rw [List.getElem?_map, Option.map_eq_some_iff] at hi
      obtain ⟨s, hs, rfl⟩ := hi
      exact ⟨i, s, a, hs, mem_of_mem_tail ha, rfl⟩
  · rintro ⟨i, s, a, hs, ha, rfl⟩
    cases s with
    | nil => simp at ha
    | cons b bs =>
      rcases mem_cons.mp ha with rfl | ha
      · exact .inl ⟨i, a, bs, hs, by simp⟩
      · exact .inr ⟨i, bs, a, by simp [hs], ha, rfl⟩

theorem lastWriter_concat (streams : List (List α)) (s : List α) (k : κ) :
    lastWriter T (streams ++ [s]) k =
      (s.find? (fun a => T.itemKey a = k)).or (lastWriter T streams k) := by
  simp [lastWriter]

/-- In a strictly ascending stream a key has one item. -/
theorem eq_of_itemKey_eq {s : List α} (hs : s.Pairwise (fun a b => T.itemKey a < T.itemKey b)) {a b : α}
    (ha : a ∈ s) (hb : b ∈ s) (hk : T.itemKey a = T.itemKey b) : a = b := by
  induction hs with
  | nil => simp at ha
  | cons hlt _ ih =>
    rcases mem_cons.mp ha with rfl | ha' <;> rcases mem_cons.mp hb with rfl | hb'
    · rfl
    · exact absurd hk (ne_of_lt (hlt b hb'))
    · exact absurd hk (ne_of_gt (hlt a ha'))
    · exact ih ha' hb'

/-- `lastWriter` by stream index: the winner is in a stream after which no stream has the key. -/
theorem lastWriter_eq_some (hasc : Ascending T streams) {k : κ} {a : α} :
    lastWriter T streams k = some a ↔
      ∃ (i : ℕ) (s : List α), streams[i]? = some s ∧ a ∈ s ∧ T.itemKey a = k ∧
        ∀ (j : ℕ) (s' : List α), streams[j]? = some s' → i < j → ∀ b ∈ s', T.itemKey b ≠ k := by
  induction streams using List.reverseRecOn with
  | nil => simp [lastWriter]
  | append_singleton ss s ih =>
    have hs : s.Pairwise (fun a b => T.itemKey a < T.itemKey b) := hasc s (by simp)
    have ih' := ih (fun t ht => hasc t (by simp [ht]))
    have hlast : (ss ++ [s])[ss.length]? = some s := by simp
    -- indices of the longer list are those of the shorter one and its length
    have hidx : ∀ j s', (ss ++ [s])[j]? = some s' → ss[j]? = some s' ∨ j = ss.length ∧ s' = s := by
      intro j s' hj
      by_cases hlt : j < ss.length
      · rw [List.getElem?_append_left hlt] at hj; exact .inl hj
      · rw [List.getElem?_append_right (not_lt.mp hlt)] at hj
        have h0 : j - ss.length = 0 := by
          by_contra hne
          rw [List.getElem?_eq_none (by simp; omega)] at hj; simp at hj
        rw [h0] at hj
        exact .inr ⟨by omega, by simpa using hj.symm⟩
    have hbound : ∀ j s', ss[j]? = some s' → j < ss.length := fun j s' hj => by
      by_contra hge; rw [List.getElem?_eq_none (not_lt.mp hge)] at hj; simp at hj
    rw [lastWriter_concat]
    cases hf : s.find? (fun a => T.itemKey a = k) with
    | some b =>
      have hbs := List.mem_of_find?_eq_some hf
      have hbk : T.itemKey b = k := by simpa using List.find?_some hf
      simp only [Option.some_or, Option.some.injEq]
      constructor
      · rintro rfl
        refine ⟨_, s, hlast, hbs, hbk, fun j s' hj hlt => ?_⟩
        rcases hidx j s' hj with h | ⟨rfl, -⟩
        · exact absurd (hbound j s' h) (by omega)
        · omega
      · rintro ⟨i, s', hi, ha, hak, hno⟩
        rcases hidx i s' hi with h | ⟨-, rfl⟩
        · exact absurd hbk (hno _ s hlast (hbound i s' h) b hbs)
        · -- strictly ascending keys make the item of a key unique
          exact eq_of_itemKey_eq hs hbs ha (hbk.trans hak.symm)
    | none =>
      rw [List.find?_eq_none] at hf
      rw [Option.none_or, ih']
      constructor
      · rintro ⟨i, s', hi, ha, hak, hno⟩
        refine ⟨i, s', by rw [List.getElem?_append_left (hbound i s' hi)]; exact hi, ha, hak, ?_⟩
        intro j t hj hlt b hb
        rcases hidx j t hj with h | ⟨-, rfl⟩
        · exact hno j t h hlt b hb
        · simpa using hf b hb
      · rintro ⟨i, s', hi, ha, hak, hno⟩
        rcases hidx i s' hi with h | ⟨-, rfl⟩
        · refine ⟨i, s', h, ha, hak, fun j t hj hlt => hno j t ?_ hlt⟩
          rw [List.getElem?_append_left (hbound j t hj)]; exact hj
        · exact absurd hak (by simpa using hf a ha)

/-- The popped sequence `ds` of whole streams: ascending, and exactly the tagged items. -/
structure Popped (T : Tagging α ε κ) (streams : List (List α)) (ds : List ε) : Prop where
  sorted : ds.Pairwise T.Le
  mem : ∀ e, e ∈ ds ↔ ∃ i s a, streams[i]? = some s ∧ a ∈ s ∧ e = T.tag i a

theorem popped_drain (hasc : Ascending T streams) (hfuel : (streams.map List.length).sum ≤ fuel)
    (hheap : heap.Perm (prime T 0 streams)) : Popped T streams (drain T fuel heap (streams.map List.tail)) := by
  have hc : Covered T heap (streams.map List.tail) :=
    covered_prime hasc fun e he => hheap.mem_iff.mpr he
  have hleft : left heap (streams.map List.tail) ≤ fuel := by
    have := left_prime (T := T) 0 streams
    rw [left, ← hheap.length_eq] at this
    exact this.trans_le hfuel
  refine ⟨drain_sorted hc hleft, fun e => ?_⟩
  rw [mem_drain hc hleft, hheap.mem_iff]
  exact mem_prime_or_unread

variable {ds : List ε}

/-- **The merge law.** The collapsed output holds an item exactly if it is its key's last writer. -/
theorem mem_collapse (hasc : Ascending T streams) (hpop : Popped T streams ds) {a : α} :
    a ∈ (collapse T none ds).map T.item ↔ lastWriter T streams (T.itemKey a) = some a := by
  obtain ⟨hsorted, hmem⟩ := hpop
  rw [lastWriter_eq_some hasc, mem_map]
  cases ds with
  | nil =>
    simp only [not_mem_nil, false_iff] at hmem
    constructor
    · rintro ⟨e, he, -⟩; simp [collapse] at he
    · rintro ⟨i, s, hi, ha, -⟩; exact absurd ⟨i, s, a, hi, ha, rfl⟩ (hmem (T.tag i a))
  | cons d ds =>
    constructor
    · rintro ⟨e, he, rfl⟩
      obtain ⟨hin, hwin⟩ := mem_collapse_some hsorted he
      obtain ⟨i, s, a, hi, ha, rfl⟩ := (hmem e).mp hin
      refine ⟨i, s, hi, by simpa using ha, rfl, fun j s' hj hlt b hb hkb => ?_⟩
      have := hwin (T.tag j b) ((hmem _).mpr ⟨j, s', b, hj, hb, rfl⟩) (by simpa using hkb)
      simp only [T.order_tag] at this
      omega
    · rintro ⟨i, s, hi, ha, -, hno⟩
      obtain ⟨e, he, hek⟩ := exists_mem_collapse hsorted ((hmem _).mpr ⟨i, s, a, hi, ha, rfl⟩)
      obtain ⟨hin, hwin⟩ := mem_collapse_some hsorted he
      obtain ⟨j, t, b, hj, hb, rfl⟩ := (hmem e).mp hin
      have hij : i ≤ j := by
        have := hwin (T.tag i a) ((hmem _).mpr ⟨i, s, a, hi, ha, rfl⟩) hek.symm
        simpa using this
      refine ⟨_, he, ?_⟩
      simp only [T.key_tag] at hek
      have hji : j = i := by
        by_contra hne
        exact hno j t hj (by omega) b hb hek
      subst hji
      rw [hi, Option.some.injEq] at hj
      subst hj
      rw [T.item_tag]
      exact eq_of_itemKey_eq (hasc s (mem_of_getElem? hi)) hb ha hek

theorem collapse_items_ascending (hpop : Popped T streams ds) :
    ((collapse T none ds).map T.item).Pairwise (fun a b => T.itemKey a < T.itemKey b) := by
  cases ds with
  | nil => simp [collapse]
  | cons d ds =>
    have hkey : ∀ e ∈ collapse T (some d) ds, T.itemKey (T.item e) = T.key e := fun e he => by
      obtain ⟨i, s, a, -, -, rfl⟩ := (hpop.mem e).mp (mem_collapse_some hpop.sorted he).1
      simp
    rw [pairwise_map]
    exact (collapse_ascending hpop.sorted).imp_of_mem fun ha hb h => by rwa [hkey _ ha, hkey _ hb]

end Lib.KWay
