import Mathlib.Data.List.Infix

/-! # Searching texts

`find pat s` cuts `s` at the first occurrence of `pat`. The fields of a text are the pieces between
its separators; `mem_splitOn_iff` says where a field stands. A pattern whose first character does
not occur again in it has no overlapping occurrences: after the first occurrence the pattern occurs
only in the rest (`occurs_in_rest`). -/

namespace Daisyway.Lib.Search

variable {α : Type*} [DecidableEq α]

/-- What stands before and after the first occurrence of `pat`. -/
def find (pat : List α) : List α → Option (List α × List α)
  | [] => if pat = [] then some ([], []) else none
  | c :: s =>
    if pat <+: c :: s then some ([], (c :: s).drop pat.length)
    else (find pat s).map fun (before, rest) => (c :: before, rest)

theorem find_none {pat : List α} : ∀ {s : List α}, find pat s = none → ¬ pat <:+: s
  | [], h => by
    intro hin
    rw [find, if_pos (List.infix_nil.mp hin)] at h
    cases h
  | c :: s, h => by
    intro hin
    rw [find] at h
    split_ifs at h with hp
    rcases List.infix_cons_iff.mp hin with hpre | hin
    · exact hp hpre
    · exact find_none (Option.map_eq_none_iff.mp h) hin

/-- The occurrence found is one, and there is none before it. -/
theorem find_some {pat : List α} : ∀ {s before rest : List α}, find pat s = some (before, rest) →
    s = before ++ pat ++ rest ∧ ∀ a b, s = a ++ pat ++ b → before.length ≤ a.length
  | [], before, rest, h => by
    rw [find] at h
    split_ifs at h with hp
    cases h
    exact ⟨by simp [hp], fun a b _ => Nat.zero_le _⟩
  | c :: s, before, rest, h => by
    rw [find] at h
    split_ifs at h with hp
    · cases h
      refine ⟨?_, fun a b _ => Nat.zero_le _⟩
      obtain ⟨t, ht⟩ := hp
      rw [← ht, List.drop_left, List.nil_append]
    · obtain ⟨⟨before', rest'⟩, hfind, he⟩ := Option.map_eq_some_iff.mp h
      obtain ⟨rfl, rfl⟩ := Prod.mk.inj he
      obtain ⟨hs, hfirst⟩ := find_some hfind
      refine ⟨by rw [hs]; rfl, fun a b hab => ?_⟩
      cases a with
      | nil => exact absurd ⟨b, hab.symm⟩ hp
      | cons d a =>
        have hle := hfirst a b (List.cons.inj hab).2
        simpa using hle

/-- An occurrence before which there is none is the one found. -/
theorem find_eq_some_iff {pat s before rest : List α} :
    find pat s = some (before, rest) ↔
      s = before ++ pat ++ rest ∧ ∀ a b, s = a ++ pat ++ b → before.length ≤ a.length := by
  refine ⟨find_some, fun ⟨hs, hfirst⟩ => ?_⟩
  cases hfind : find pat s with
  | none => exact absurd ⟨before, rest, hs.symm⟩ (find_none hfind)
  | some r =>
    obtain ⟨before', rest'⟩ := r
    obtain ⟨hs', hfirst'⟩ := find_some hfind
    have hlen : before.length = before'.length :=
      Nat.le_antisymm (hfirst _ _ hs') (hfirst' _ _ hs)
    have he := hs.symm.trans hs'
    rw [List.append_assoc, List.append_assoc] at he
    obtain ⟨rfl, hrest⟩ := List.append_inj he hlen
    rw [List.append_cancel_left hrest]

/-- A pattern whose first character does not occur again in it: a later occurrence begins after the
earlier one has ended. -/
theorem occurs_in_rest {k : α} {ks before rest a b : List α} (hk : k ∉ ks)
    (h : before ++ k :: ks ++ rest = a ++ k :: ks ++ b) (hlt : before.length < a.length) :
    k :: ks <:+: rest := by
  rw [List.append_assoc, List.append_assoc] at h
  rcases List.append_eq_append_iff.mp h with ⟨d, rfl, hover⟩ | ⟨d, rfl, -⟩
  · have hd : d ≠ [] := by
      rintro rfl
      simp at hlt
    rcases List.append_eq_append_iff.mp hover with ⟨w, rfl, hw⟩ | ⟨e, he, hw⟩
    · exact ⟨w, b, by rw [hw, List.append_assoc]⟩
    · -- the later occurrence would begin inside the earlier one
      obtain ⟨x, d, rfl⟩ := List.exists_cons_of_ne_nil hd
      have htail : ks = d ++ e := (List.cons.inj he).2
      cases e with
      | nil =>
        rw [List.nil_append] at hw
        exact ⟨[], b, hw⟩
      | cons y e =>
        have hy : k = y := (List.cons.inj hw).1
        exact absurd (by rw [htail, hy]; simp) hk
  · rw [List.length_append] at hlt
    omega

omit [DecidableEq α] in
/-- A text is cut at the first character that does not belong to it. -/
theorem cut_at {l : List α} {p : α → Bool} (hl : ∀ x ∈ l, p x = true) {q : α} (hq : p q = false)
    (rest : List α) :
    (l ++ q :: rest).takeWhile p = l ∧ (l ++ q :: rest).dropWhile p = q :: rest := by
  rw [List.takeWhile_append_of_pos hl, List.dropWhile_append_of_pos hl]
  simp [hq]

omit [DecidableEq α] in
/-- A pattern without the separator occurs before it or after it. -/
theorem infix_append_cons {c : α} {pat a b : List α} (hc : c ∉ pat) (h : pat <:+: a ++ c :: b) :
    pat <:+: a ∨ pat <:+: b := by
  obtain ⟨s, t, h⟩ := h
  rcases List.append_eq_append_iff.mp h with ⟨d, rfl, -⟩ | ⟨d, hs, hd⟩
  · exact Or.inl ⟨s, d, rfl⟩
  · cases d with
    | nil => exact Or.inl ⟨s, [], by rw [List.append_nil] at hs ⊢; exact hs⟩
    | cons x d =>
      obtain ⟨rfl, hb⟩ := List.cons.inj hd
      rcases List.append_eq_append_iff.mp hs with ⟨e, -, he⟩ | ⟨e, -, he⟩
      · exact absurd (by rw [he]; simp) hc
      · cases e with
        | nil =>
          rw [List.nil_append] at he
          exact absurd (by rw [← he]; simp) hc
        | cons y e =>
          have hrest : d = e ++ pat := (List.cons.inj he).2
          exact Or.inr ⟨e, t, by rw [hb, hrest]; rfl⟩

/-- Where a field stands: it begins the text or follows a separator, and it ends the text or is
followed by one. -/
theorem mem_splitOn_iff {c : α} {p : List α} {s : List α} :
    p ∈ s.splitOn c ↔ c ∉ p ∧ ∃ a b, s = a ++ p ++ b ∧ (a = [] ∨ ∃ a', a = a' ++ [c]) ∧
      (b = [] ∨ ∃ b', b = c :: b') := by
  constructor
  · induction hn : s.length using Nat.strong_induction_on generalizing s with
    | _ n ih =>
      intro hp
      by_cases hc : c ∈ s
      · obtain ⟨x, y, rfl, hx⟩ := List.eq_append_cons_of_mem hc
        rw [List.splitOn_append_cons_self_of_not_mem hx] at hp
        rcases List.mem_cons.mp hp with rfl | hp
        · exact ⟨hx, [], c :: y, by simp, Or.inl rfl, Or.inr ⟨y, rfl⟩⟩
        · have hlt : y.length < n := by
            rw [← hn, List.length_append, List.length_cons]
            omega
          obtain ⟨hcp, a, b, hy, ha, hb⟩ := ih _ hlt rfl hp
          refine ⟨hcp, x ++ c :: a, b, by simp [hy], Or.inr ?_, hb⟩
          rcases ha with rfl | ⟨a', rfl⟩
          · exact ⟨x, rfl⟩
          · exact ⟨x ++ c :: a', by simp⟩
      · rw [List.splitOn_eq_singleton hc] at hp
        rw [List.mem_singleton.mp hp]
        exact ⟨hc, [], [], by simp, Or.inl rfl, Or.inl rfl⟩
  · rintro ⟨hcp, a, b, rfl, ha, hb⟩
    have hrest : p ∈ (p ++ b).splitOn c := by
      rcases hb with rfl | ⟨b', rfl⟩
      · rw [List.append_nil, List.splitOn_eq_singleton hcp]
        exact List.mem_singleton_self p
      · rw [List.splitOn_append_cons_self_of_not_mem hcp]
        exact List.mem_cons_self
    rcases ha with rfl | ⟨a', rfl⟩
    · exact hrest
    · have he : a' ++ [c] ++ p ++ b = a' ++ c :: (p ++ b) := by simp
      rw [he, List.splitOn_append_cons_self]
      exact List.mem_append_right _ hrest

end Daisyway.Lib.Search
