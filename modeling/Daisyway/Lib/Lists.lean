import Mathlib.Data.List.Induction
import Mathlib.Data.List.Flatten
import Mathlib.Data.List.ReduceOption
import Mathlib.Data.List.Sort

/-! # Pools and tagged streams

A pool of processes is a list: a step of one replaces its element, a new one is added at the end.
The first section says where the elements of such a list come from.

Values that come from several sources are tagged with the number of their source. If the tags never
decrease, the values follow the sources one after the other: where the values of each source are a
subsequence of a list, all values are a subsequence of these lists in the order of the sources
(`sublist_flatMap_of_sorted`). -/

namespace Daisyway.Lib.Lists

variable {α β : Type*}

/-! ### Pools -/

/-- An element of an updated list is the new one, or an old one at another place. -/
theorem getElem?_set_cases {l : List α} {i j : ℕ} {a b : α} (h : (l.set i a)[j]? = some b) :
    (j = i ∧ b = a) ∨ (j ≠ i ∧ l[j]? = some b) := by
  by_cases hj : j = i
  · subst hj
    have hlt : j < l.length := by
      have := (List.getElem?_eq_some_iff.mp h).1
      rwa [List.length_set] at this
    rw [List.getElem?_set_self hlt] at h
    exact Or.inl ⟨rfl, (Option.some.inj h).symm⟩
  · rw [List.getElem?_set_ne (Ne.symm hj)] at h
    exact Or.inr ⟨hj, h⟩

/-- An element of an extended list is an old one, or the new one at the end. -/
theorem getElem?_concat_cases {l : List α} {j : ℕ} {a b : α} (h : (l ++ [a])[j]? = some b) :
    (j < l.length ∧ l[j]? = some b) ∨ (j = l.length ∧ b = a) := by
  by_cases hj : j < l.length
  · rw [List.getElem?_append_left hj] at h
    exact Or.inl ⟨hj, h⟩
  · rw [List.getElem?_append_right (by omega)] at h
    have hone : j - l.length < 1 := (List.getElem?_eq_some_iff.mp h).1
    exact Or.inr ⟨by omega, List.mem_singleton.mp (List.mem_of_getElem? h)⟩

theorem map_set_of_eq {f : α → β} {l : List α} {c : ℕ} {a a' : α} (hc : l[c]? = some a)
    (hf : f a' = f a) : (l.set c a').map f = l.map f := by
  obtain ⟨hlt, rfl⟩ := List.getElem?_eq_some_iff.mp hc
  rw [List.map_set, hf, ← List.getElem_map f (h := by rwa [List.length_map]), List.set_getElem_self]

/-! ### Tagged streams -/

/-- The values with the tag `i`. -/
def valuesOf (i : ℕ) (l : List (ℕ × β)) : List β := (l.filter fun e => e.1 = i).map Prod.snd

@[simp] theorem valuesOf_nil (i : ℕ) : valuesOf i ([] : List (ℕ × β)) = [] := rfl

theorem valuesOf_append (i : ℕ) (l l' : List (ℕ × β)) :
    valuesOf i (l ++ l') = valuesOf i l ++ valuesOf i l' := by
  simp [valuesOf]

theorem valuesOf_sublist {i : ℕ} {l l' : List (ℕ × β)} (h : l.Sublist l') :
    (valuesOf i l).Sublist (valuesOf i l') := (h.filter _).map _

theorem valuesOf_eq_nil {i : ℕ} {l : List (ℕ × β)} (h : ∀ e ∈ l, e.1 ≠ i) : valuesOf i l = [] := by
  unfold valuesOf
  rw [List.filter_eq_nil_iff.mpr fun e he => by simpa using h e he, List.map_nil]

@[simp] theorem valuesOf_map_same (i : ℕ) (l : List β) : valuesOf i (l.map (i, ·)) = l := by
  simp [valuesOf, List.filter_map, Function.comp_def]

/-- The values of all sources, one after the other, are the values in another order. -/
theorem perm_flatMap_valuesOf {n : ℕ} {l : List (ℕ × β)} (hlt : ∀ e ∈ l, e.1 < n) :
    ((List.range n).flatMap fun i => valuesOf i l).Perm (l.map Prod.snd) := by
  induction n generalizing l with
  | zero =>
    cases l with
    | nil => exact List.Perm.refl _
    | cons e l => exact absurd (hlt e List.mem_cons_self) (Nat.not_lt_zero _)
  | succ n ih =>
    -- the values of the last source, and those of the others
    have hfront : ((List.range n).flatMap fun i => valuesOf i l) =
        (List.range n).flatMap fun i => valuesOf i (l.filter fun e => e.1 < n) := by
      refine List.flatMap_congr fun i hi => ?_
      have hi := List.mem_range.mp hi
      unfold valuesOf
      rw [List.filter_filter]
      congr 1
      refine List.filter_congr fun e _ => ?_
      by_cases he : e.1 = i
      · simp [he, hi]
      · simp [he]
    have hback : valuesOf n l = (l.filter fun e => ¬ e.1 < n).map Prod.snd := by
      unfold valuesOf
      congr 1
      refine List.filter_congr fun e he => ?_
      have := hlt e he
      simp only [decide_eq_decide]
      omega
    rw [List.range_succ, List.flatMap_append, List.flatMap_singleton, hfront, hback]
    refine ((ih fun e he => ?_).append_right _).trans ?_
    · simpa using (List.mem_filter.mp he).2
    · rw [← List.map_append]
      have hperm := List.filter_append_perm (fun e : ℕ × β => decide (e.1 < n)) l
      simp only [← decide_not] at hperm
      exact hperm.map _

/-- In a list with non-decreasing tags, the values with small tags come first. -/
theorem filter_lt_append (n : ℕ) : ∀ {l : List (ℕ × β)}, l.Pairwise (fun a b => a.1 ≤ b.1) →
    l = (l.filter fun e => e.1 < n) ++ l.filter fun e => ¬ e.1 < n
  | [], _ => rfl
  | e :: l, h => by
    obtain ⟨hle, hl⟩ := List.pairwise_cons.mp h
    have ih := filter_lt_append n hl
    by_cases he : e.1 < n
    · rw [List.filter_cons_of_pos (by simpa using he), List.filter_cons_of_neg (by simpa using he),
        List.cons_append, ← ih]
    · -- all later tags are at least as large
      have hnone : l.filter (fun e => e.1 < n) = [] := by
        refine List.filter_eq_nil_iff.mpr fun b hb => ?_
        have := hle b hb
        simp only [decide_eq_true_eq]
        omega
      rw [hnone, List.nil_append] at ih
      rw [List.filter_cons_of_neg (by simpa using he), List.filter_cons_of_pos (by simpa using he),
        hnone, List.nil_append, ← ih]

/-- **Sorted by source, the values are a subsequence of the sources' lists.** -/
theorem sublist_flatMap_of_sorted {L : ℕ → List β} : ∀ {n : ℕ} {l : List (ℕ × β)},
    l.Pairwise (fun a b => a.1 ≤ b.1) → (∀ e ∈ l, e.1 < n) →
    (∀ i < n, (valuesOf i l).Sublist (L i)) →
    (l.map Prod.snd).Sublist ((List.range n).flatMap L)
  | 0, l, _, hlt, _ => by
    cases l with
    | nil => exact List.Sublist.refl _
    | cons e l => exact absurd (hlt e List.mem_cons_self) (by omega)
  | n + 1, l, hs, hlt, hL => by
    have hfront :
        ((l.filter fun e => e.1 < n).map Prod.snd).Sublist ((List.range n).flatMap L) := by
      refine sublist_flatMap_of_sorted (hs.sublist List.filter_sublist) (fun e he => ?_)
        fun i hi => ?_
      · simpa using (List.mem_filter.mp he).2
      · exact (valuesOf_sublist List.filter_sublist).trans (hL i (by omega))
    have hback : ((l.filter fun e => ¬ e.1 < n).map Prod.snd) = valuesOf n l := by
      unfold valuesOf
      congr 1
      refine List.filter_congr fun e he => ?_
      have := hlt e he
      simp only [decide_eq_decide]
      omega
    rw [filter_lt_append n hs, List.map_append, hback, List.range_succ, List.flatMap_append]
    refine hfront.append ?_
    simpa using hL n (by omega)

/-! ### Lists of lists -/

theorem flatMap_range_getElem? (l : List (List β)) :
    ((List.range l.length).flatMap fun i => l[i]?.getD []) = l.flatten := by
  induction l using List.reverseRecOn with
  | nil => rfl
  | append_singleton l x ih =>
    have hfront : ((List.range l.length).flatMap fun i => (l ++ [x])[i]?.getD []) =
        (List.range l.length).flatMap fun i => l[i]?.getD [] := by
      refine List.flatMap_congr fun i hi => ?_
      rw [List.getElem?_append_left (List.mem_range.mp hi)]
    rw [List.length_append, List.length_singleton, List.range_succ, List.flatMap_append, hfront, ih]
    simp

theorem flatten_sublist_of_forall₂ {l l' : List (List β)} (h : List.Forall₂ List.Sublist l l') :
    l.flatten.Sublist l'.flatten := by
  induction h with
  | nil => exact List.Sublist.refl _
  | cons hab _ ih => exact hab.append ih

/-- Increasing numbers below `n` are a subsequence of all of them. -/
theorem sublist_range {l : List ℕ} {n : ℕ} (hs : l.Pairwise (· < ·)) (hlt : ∀ i ∈ l, i < n) :
    l.Sublist (List.range n) := by
  have hsub : l.Subperm (List.range n) :=
    List.subperm_of_subset (hs.imp ne_of_lt) fun i hi => List.mem_range.mpr (hlt i hi)
  exact List.sublist_of_subperm_of_pairwise hsub hs List.pairwise_lt_range

/-- **Counting by position**: as many elements satisfy `p` as there are positions in `is`, if `is`
lists the positions of those elements. -/
theorem length_filter_of_positions {p : β → Bool} {l : List β} {is : List ℕ} (hnodup : is.Nodup)
    (hlt : ∀ i ∈ is, i < l.length) (hp : ∀ i x, l[i]? = some x → (p x = true ↔ i ∈ is)) :
    (l.filter p).length = is.length := by
  have hcount : ((List.range l.length).filter (· ∈ is)).length = (l.filter p).length := by
    clear hlt
    induction l using List.reverseRecOn with
    | nil => rfl
    | append_singleton l x ih =>
      have hfront := ih fun i y hi => hp i y (by
        rwa [List.getElem?_append_left (List.getElem?_eq_some_iff.mp hi).1])
      have hlast : p x = true ↔ l.length ∈ is := hp l.length x List.getElem?_concat_length
      rw [List.length_append, List.length_singleton, List.range_succ, List.filter_append,
        List.filter_append, List.length_append, List.length_append, hfront]
      congr 1
      by_cases hx : p x = true
      · simp [hx, hlast.mp hx]
      · simp [hx, mt hlast.mpr hx]
  have hperm : is.Perm ((List.range l.length).filter (· ∈ is)) := by
    refine (List.perm_ext_iff_of_nodup hnodup (List.nodup_range.filter _)).mpr fun i => ?_
    rw [List.mem_filter, List.mem_range, decide_eq_true_eq]
    exact ⟨fun hi => ⟨hlt i hi, hi⟩, fun hi => hi.2⟩
  rw [← hcount, hperm.length_eq]

/-- Where the values that are present increase, each is at one position. -/
theorem eq_of_reduceOption_ordered : ∀ {l : List (Option ℕ)}, l.reduceOption.Pairwise (· < ·) →
    ∀ {i j c : ℕ}, l[i]? = some (some c) → l[j]? = some (some c) → i = j
  | [], _, i, _, _, hi, _ => by simp at hi
  | x :: l, h, i, j, c, hi, hj => by
    have htail : l.reduceOption.Pairwise (· < ·) :=
      h.sublist ((List.sublist_cons_self x l).filterMap _)
    have hlater : x = some c → some c ∉ l := by
      rintro rfl hmem
      rw [List.reduceOption_cons_of_some] at h
      exact lt_irrefl c ((List.pairwise_cons.mp h).1 c (List.reduceOption_mem_iff.mpr hmem))
    cases i with
    | zero =>
      cases j with
      | zero => rfl
      | succ j =>
        rw [List.getElem?_cons_succ] at hj
        exact absurd (List.mem_of_getElem? hj) (hlater (Option.some.inj hi))
    | succ i =>
      rw [List.getElem?_cons_succ] at hi
      cases j with
      | zero => exact absurd (List.mem_of_getElem? hi) (hlater (Option.some.inj hj))
      | succ j =>
        rw [List.getElem?_cons_succ] at hj
        rw [eq_of_reduceOption_ordered htail hi hj]

/-- Instants that are `d` apart: how many there are between `lo` and `hi`. -/
theorem length_le_of_spaced {d hi : ℕ} (hd : 0 < d) : ∀ {l : List ℕ} {lo : ℕ},
    l.Pairwise (fun a b => a + d ≤ b) → (∀ a ∈ l, lo ≤ a ∧ a ≤ hi) → l.length ≤ (hi - lo) / d + 1
  | [], _, _, _ => Nat.zero_le _
  | [_], _, _, _ => Nat.le_add_left _ _
  | a :: b :: l, lo, h, hl => by
    obtain ⟨ha, htail⟩ := List.pairwise_cons.mp h
    have hrest : (b :: l).length ≤ (hi - (lo + d)) / d + 1 := by
      refine length_le_of_spaced hd htail fun c hc => ⟨?_, (hl c (List.mem_cons_of_mem _ hc)).2⟩
      exact (Nat.add_le_add_right (hl a List.mem_cons_self).1 d).trans (ha c hc)
    have hle : lo + d ≤ hi := by
      have h1 := (hl a List.mem_cons_self).1
      have h2 := ha b List.mem_cons_self
      have h3 := (hl b (by simp)).2
      omega
    have hdiv : (hi - lo) / d = (hi - (lo + d)) / d + 1 := by
      rw [← Nat.add_div_right _ hd]
      congr 1
      omega
    rw [hdiv, List.length_cons]
    exact Nat.add_le_add_right hrest 1

theorem flatten_map_elim {f : ℕ → List β} (l : List (Option ℕ)) :
    (l.map fun o => o.elim [] f).flatten = (l.reduceOption.map f).flatten := by
  induction l with
  | nil => rfl
  | cons o l ih =>
    cases o with
    | none => simpa using ih
    | some c => simpa using ih

end Daisyway.Lib.Lists
