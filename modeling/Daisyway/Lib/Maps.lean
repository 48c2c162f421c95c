import Mathlib.Data.List.Basic
import Mathlib.Order.Lattice

/-! # Maps with ordered keys

`OrdMap κ ν` is a finite map kept as its list of entries in strictly increasing order of the keys;
the order is a field, so a map with two entries for one key cannot be built. The operations are
those of an ordered tree map: `get?`, `erase`, `insert`, `popFirst` and `splitOff`. Each is
described by what it does to the entries (`mem_erase`, `mem_insert`, `popFirst_some`,
`splitOff_erase`), and proofs use only these descriptions. -/

namespace Daisyway.Lib.Maps

/-- A finite map: its entries in strictly increasing order of the keys. -/
structure OrdMap (κ ν : Type*) [LinearOrder κ] where
  entries : List (κ × ν)
  sorted : entries.Pairwise fun a b => a.1 < b.1
  deriving DecidableEq

namespace OrdMap

variable {κ ν : Type*} [LinearOrder κ] {m : OrdMap κ ν} {k : κ} {v : ν}

/-- The map without entries. -/
def empty : OrdMap κ ν := ⟨[], List.Pairwise.nil⟩

/-- The number of entries. -/
def len (m : OrdMap κ ν) : ℕ := m.entries.length

/-- The keys, in increasing order. -/
def keys (m : OrdMap κ ν) : List κ := m.entries.map Prod.fst

/-- The value of the key `k`, if there is one. -/
def get? (m : OrdMap κ ν) (k : κ) : Option ν := (m.entries.find? fun e => e.1 = k).map Prod.snd

/-- The entries whose key satisfies `p`. -/
def filterKeys (p : κ → Bool) (m : OrdMap κ ν) : OrdMap κ ν :=
  ⟨m.entries.filter fun e => p e.1, m.sorted.sublist List.filter_sublist⟩

/-- The map without the key `k`. -/
def erase (m : OrdMap κ ν) (k : κ) : OrdMap κ ν := m.filterKeys fun j => j ≠ k

/-- Splits the map at `k`: the entries below `k` stay, the others are returned. -/
def splitOff (m : OrdMap κ ν) (k : κ) : OrdMap κ ν × OrdMap κ ν :=
  (m.filterKeys fun j => j < k, m.filterKeys fun j => k ≤ j)

/-- Removes the entry with the smallest key. -/
def popFirst (m : OrdMap κ ν) : Option ((κ × ν) × OrdMap κ ν) :=
  match m with
  | ⟨[], _⟩ => none
  | ⟨e :: es, h⟩ => some (e, ⟨es, (List.pairwise_cons.mp h).2⟩)

theorem mem_filterKeys {p : κ → Bool} {e : κ × ν} :
    e ∈ (m.filterKeys p).entries ↔ e ∈ m.entries ∧ p e.1 = true := by
  simp [filterKeys, List.mem_filter]

/-- Puts the value `v` at the key `k`, in place of the value `k` had. -/
def insert (m : OrdMap κ ν) (k : κ) (v : ν) : OrdMap κ ν where
  entries :=
    (m.filterKeys fun j => j < k).entries ++ (k, v) :: (m.filterKeys fun j => k < j).entries
  sorted := by
    refine List.pairwise_append.mpr ⟨(m.filterKeys _).sorted, ?_, ?_⟩
    · refine List.pairwise_cons.mpr ⟨fun e he => ?_, (m.filterKeys _).sorted⟩
      simpa using (mem_filterKeys.mp he).2
    · intro a ha b hb
      have hak : a.1 < k := by simpa using (mem_filterKeys.mp ha).2
      rcases List.mem_cons.mp hb with rfl | hb
      · exact hak
      · exact hak.trans (by simpa using (mem_filterKeys.mp hb).2)

/-! ### What the operations do to the entries -/

theorem mem_keys : k ∈ m.keys ↔ ∃ v, (k, v) ∈ m.entries := by
  simp [keys]

theorem mem_keys_of_mem {e : κ × ν} (h : e ∈ m.entries) : e.1 ∈ m.keys := mem_keys.mpr ⟨e.2, h⟩

/-- A key has one value. -/
theorem entry_unique {v' : ν} (h : (k, v) ∈ m.entries) (h' : (k, v') ∈ m.entries) : v = v' := by
  have hlt := List.pairwise_iff_getElem.mp m.sorted
  obtain ⟨i, hi, ei⟩ := List.getElem_of_mem h
  obtain ⟨j, hj, ej⟩ := List.getElem_of_mem h'
  rcases Nat.lt_trichotomy i j with hij | rfl | hij
  · have := hlt i j hi hj hij
    simp [ei, ej] at this
  · exact (Prod.mk.inj (ei.symm.trans ej)).2
  · have := hlt j i hj hi hij
    simp [ei, ej] at this

theorem get?_eq_some_iff : m.get? k = some v ↔ (k, v) ∈ m.entries := by
  unfold get?
  rw [Option.map_eq_some_iff]
  constructor
  · rintro ⟨e, he, rfl⟩
    have hk : e.1 = k := by simpa using List.find?_some he
    have := List.mem_of_find?_eq_some he
    rwa [← hk]
  · intro h
    cases hf : m.entries.find? fun e => e.1 = k with
    | none =>
      have := List.find?_eq_none.mp hf (k, v) h
      simp at this
    | some e =>
      have hk : e.1 = k := by simpa using List.find?_some hf
      have he := List.mem_of_find?_eq_some hf
      subst hk
      exact ⟨e, rfl, entry_unique he h⟩

theorem get?_eq_none_iff : m.get? k = none ↔ k ∉ m.keys := by
  rw [mem_keys, Option.eq_none_iff_forall_ne_some]
  simp only [ne_eq, get?_eq_some_iff, not_exists]

theorem mem_erase {e : κ × ν} : e ∈ (m.erase k).entries ↔ e ∈ m.entries ∧ e.1 ≠ k := by
  simp [erase, mem_filterKeys]

theorem mem_insert {e : κ × ν} :
    e ∈ (m.insert k v).entries ↔ e = (k, v) ∨ (e ∈ m.entries ∧ e.1 ≠ k) := by
  simp only [insert, List.mem_append, List.mem_cons, mem_filterKeys, decide_eq_true_eq,
    ne_iff_lt_or_gt]
  tauto

theorem popFirst_none : m.popFirst = none ↔ m.entries = [] := by
  obtain ⟨es, h⟩ := m
  cases es <;> simp [popFirst]

theorem popFirst_some {e : κ × ν} {m' : OrdMap κ ν} :
    m.popFirst = some (e, m') ↔ m.entries = e :: m'.entries := by
  obtain ⟨es, h⟩ := m
  obtain ⟨es', h'⟩ := m'
  cases es with
  | nil => simp [popFirst]
  | cons a es => simp [popFirst, OrdMap.mk.injEq]

@[simp] theorem keys_filterKeys (p : κ → Bool) : (m.filterKeys p).keys = m.keys.filter p := by
  unfold keys filterKeys
  rw [List.filter_map]
  rfl

theorem erase_eq_filterKeys : m.erase k = m.filterKeys fun j => j ≠ k := rfl

/-- Splitting a map at a key that was removed: what is below the key and what is above it. -/
theorem splitOff_erase :
    (m.erase k).splitOff k = (m.filterKeys fun j => j < k, m.filterKeys fun j => k < j) := by
  unfold splitOff erase filterKeys
  simp only [List.filter_filter, Prod.mk.injEq, OrdMap.mk.injEq]
  constructor
  · refine List.filter_congr fun e _ => ?_
    by_cases h : e.1 < k
    · simp [h, h.ne]
    · simp [h]
  · refine List.filter_congr fun e _ => ?_
    simp only [← Bool.decide_and]
    exact decide_eq_decide.mpr ⟨fun h => lt_of_le_of_ne h.1 (Ne.symm h.2), fun h => ⟨h.le, h.ne'⟩⟩

theorem keys_pairwise (m : OrdMap κ ν) : m.keys.Pairwise (· < ·) :=
  List.pairwise_map.mpr m.sorted

theorem entries_nodup (m : OrdMap κ ν) : m.entries.Nodup := m.sorted.imp fun h he => by
  rw [he] at h
  exact lt_irrefl _ h

theorem keys_nodup (m : OrdMap κ ν) : m.keys.Nodup := m.keys_pairwise.imp ne_of_lt

theorem keys_of_popFirst {e : κ × ν} {m' : OrdMap κ ν} (h : m.popFirst = some (e, m')) :
    m.keys = e.1 :: m'.keys := by
  unfold keys
  rw [popFirst_some.mp h]
  rfl

/-! ### Rearrangements -/

/-- What `insert` keeps of a map is what `erase` keeps. -/
theorem perm_insert : (m.insert k v).entries.Perm ((k, v) :: (m.erase k).entries) := by
  have hnodup : ((k, v) :: (m.erase k).entries).Nodup := by
    refine List.nodup_cons.mpr ⟨fun h => ?_, (m.erase k).entries_nodup⟩
    exact (mem_erase.mp h).2 rfl
  refine (List.perm_ext_iff_of_nodup (m.insert k v).entries_nodup hnodup).mpr fun e => ?_
  rw [mem_insert, List.mem_cons, mem_erase]

theorem perm_erase (h : (k, v) ∈ m.entries) : m.entries.Perm ((k, v) :: (m.erase k).entries) := by
  refine List.Perm.trans ?_ perm_insert
  refine (List.perm_ext_iff_of_nodup m.entries_nodup (m.insert k v).entries_nodup).mpr fun e => ?_
  rw [mem_insert]
  constructor
  · intro he
    by_cases hk : e.1 = k
    · left
      subst hk
      exact Prod.ext rfl (entry_unique he h)
    · exact Or.inr ⟨he, hk⟩
  · rintro (rfl | ⟨he, -⟩)
    · exact h
    · exact he

theorem perm_get?_erase :
    m.entries.Perm ((m.get? k).toList.map (fun v => (k, v)) ++ (m.erase k).entries) := by
  cases hg : m.get? k with
  | none =>
    have hall : (m.erase k).entries = m.entries := by
      refine List.filter_eq_self.mpr fun e he => ?_
      have hne : e.1 ≠ k := fun hk => get?_eq_none_iff.mp hg (hk ▸ mem_keys_of_mem he)
      simpa using hne
    rw [hall]
    exact List.Perm.refl _
  | some v => exact perm_erase (get?_eq_some_iff.mp hg)

/-- A map around one of its keys. -/
theorem perm_split (h : (k, v) ∈ m.entries) :
    m.entries.Perm ((k, v) :: ((m.filterKeys fun j => j < k).entries ++
      (m.filterKeys fun j => k < j).entries)) :=
  (perm_erase h).trans (perm_insert.symm.trans List.perm_middle)

/-! ### Lengths -/

theorem length_keys : m.keys.length = m.len := List.length_map _

theorem len_filterKeys_le (p : κ → Bool) : (m.filterKeys p).len ≤ m.len := List.length_filter_le _ _

/-- A key above all others goes to the end. -/
theorem entries_insert_of_lt (h : ∀ e ∈ m.entries, e.1 < k) :
    (m.insert k v).entries = m.entries ++ [(k, v)] := by
  have h1 : (m.filterKeys fun j => j < k).entries = m.entries :=
    List.filter_eq_self.mpr fun e he => by simpa using h e he
  have h2 : (m.filterKeys fun j => k < j).entries = [] :=
    List.filter_eq_nil_iff.mpr fun e he => by simpa using (h e he).le
  show (m.filterKeys _).entries ++ _ :: (m.filterKeys _).entries = _
  rw [h1, h2]

theorem keys_insert_of_lt (h : ∀ j ∈ m.keys, j < k) : (m.insert k v).keys = m.keys ++ [k] := by
  unfold keys
  rw [entries_insert_of_lt fun e he => h e.1 (mem_keys_of_mem he)]
  simp

end OrdMap

end Daisyway.Lib.Maps
