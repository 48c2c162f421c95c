import Mathlib.Data.List.Basic
import Mathlib.Tactic.Ring

/-! # One direction of a reliable stream

A pipe delivers what was written into it in order, in chunks of any size, until it is cut: what was
not delivered at the cut may be lost from any byte on, and what is written afterwards is lost. The
pipe keeps everything ever written (`sent`) and everything ever delivered (`received`); that the
second is a front of the first is part of the structure.

`prefix_of_flatMap_prefix` is the framing lemma: if messages have one fixed length, then from a
front of the bytes of a sequence of messages one reads off a front of the sequence. -/

namespace Daisyway.Lib.Stream

/-- A pipe of items. -/
structure Pipe (β : Type*) where
  /-- Everything the writer has handed over. -/
  sent : List β
  /-- Everything the reader has got. -/
  received : List β
  /-- What the reader can get next. -/
  avail : List β
  /-- The pipe is broken: what is written from now on is lost. -/
  isCut : Bool
  fifo : received ++ avail <+: sent
  whole : isCut = false → received ++ avail = sent
  deriving DecidableEq

namespace Pipe

variable {β : Type*}

def empty : Pipe β := ⟨[], [], [], false, List.prefix_rfl, fun _ => rfl⟩

/-- The writer hands over `bs`. -/
def push (p : Pipe β) (bs : List β) : Pipe β where
  sent := p.sent ++ bs
  received := p.received
  avail := if p.isCut then p.avail else p.avail ++ bs
  isCut := p.isCut
  fifo := by
    split_ifs with h
    · exact p.fifo.trans (List.prefix_append _ _)
    · have hall : p.received ++ (p.avail ++ bs) = p.sent ++ bs := by
        rw [← List.append_assoc, p.whole (by simpa using h)]
      exact hall ▸ List.prefix_rfl
  whole h := by
    rw [if_neg (by simp [h]), ← List.append_assoc, p.whole h]

/-- The reader gets the chunk `bs`, if that is what comes next. -/
def pull [DecidableEq β] (p : Pipe β) (bs : List β) : Option (Pipe β) :=
  if h : bs <+: p.avail then
    some {
      sent := p.sent
      received := p.received ++ bs
      avail := p.avail.drop bs.length
      isCut := p.isCut
      fifo := by rw [List.append_assoc, List.prefix_iff_eq_append.mp h]; exact p.fifo
      whole := fun hc => by
        rw [List.append_assoc, List.prefix_iff_eq_append.mp h]; exact p.whole hc }
  else none

/-- The pipe breaks; of what was not delivered, only the first `n` items still arrive. -/
def cutAt (p : Pipe β) (n : ℕ) : Pipe β where
  sent := p.sent
  received := p.received
  avail := p.avail.take n
  isCut := true
  fifo := (List.prefix_append_right_inj _ |>.mpr (List.take_prefix n _)).trans p.fifo
  whole h := by cases h

@[simp] theorem push_sent (p : Pipe β) (bs : List β) : (p.push bs).sent = p.sent ++ bs := rfl
@[simp] theorem push_received (p : Pipe β) (bs : List β) : (p.push bs).received = p.received := rfl

theorem received_prefix_sent (p : Pipe β) : p.received <+: p.sent :=
  (List.prefix_append _ _).trans p.fifo

theorem pull_some [DecidableEq β] {p p' : Pipe β} {bs : List β} (h : p.pull bs = some p') :
    p'.sent = p.sent ∧ p'.received = p.received ++ bs := by
  unfold pull at h
  split_ifs at h
  cases h
  exact ⟨rfl, rfl⟩

@[simp] theorem push_nil (p : Pipe β) : p.push [] = p := by
  obtain ⟨sent, received, avail, isCut, fifo, whole⟩ := p
  simp [push]

@[simp] theorem pull_nil [DecidableEq β] (p : Pipe β) : p.pull [] = some p := by
  obtain ⟨sent, received, avail, isCut, fifo, whole⟩ := p
  simp [pull]

/-- What is written into an empty pipe can be read. -/
theorem exists_pull_push [DecidableEq β] (bs : List β) :
    ∃ p : Pipe β, (empty.push bs).pull bs = some p := by
  unfold pull
  rw [dif_pos (show bs <+: (empty.push bs).avail from List.prefix_rfl)]
  exact ⟨_, rfl⟩

end Pipe

/-- A front of the images is a front of the list where the images tell the elements apart. -/
theorem prefix_of_map_prefix {α β : Type*} {f : α → β} :
    ∀ {l l' : List α}, (∀ a ∈ l, ∀ a' ∈ l', f a = f a' → a = a') → l.map f <+: l'.map f → l <+: l'
  | [], _, _, _ => List.nil_prefix
  | a :: l, [], _, h => by simp at h
  | a :: l, a' :: l', hinj, h => by
    rw [List.map_cons, List.map_cons, List.cons_prefix_cons] at h
    rw [hinj a (by simp) a' (by simp) h.1]
    refine List.cons_prefix_cons.mpr ⟨rfl, prefix_of_map_prefix (fun b hb b' hb' => ?_) h.2⟩
    exact hinj b (by simp [hb]) b' (by simp [hb'])

/-! ### Messages of a fixed length -/

section Frames
variable {α β : Type*} {f : α → List β} {n : ℕ}

theorem length_flatMap_of_length (hf : ∀ a, (f a).length = n) (l : List α) :
    (l.flatMap f).length = l.length * n := by
  induction l with
  | nil => simp
  | cons a l ih => simp only [List.flatMap_cons, List.length_append, hf, ih, List.length_cons]; ring

/-- **Framing.** A front of the bytes is a front of the messages. -/
theorem prefix_of_flatMap_prefix (hf : ∀ a, (f a).length = n) (hn : 0 < n)
    (hinj : Function.Injective f) :
    ∀ {l l' : List α}, l.flatMap f <+: l'.flatMap f → l <+: l'
  | [], l', _ => List.nil_prefix
  | a :: l, [], h => by
    have hlen := h.length_le
    simp only [List.flatMap_cons, List.length_append, hf, List.flatMap_nil, List.length_nil] at hlen
    omega
  | a :: l, a' :: l', h => by
    obtain ⟨t, ht⟩ := h
    simp only [List.flatMap_cons, List.append_assoc] at ht
    obtain ⟨h1, h2⟩ := List.append_inj ht (by rw [hf, hf])
    rw [hinj h1]
    exact List.cons_prefix_cons.mpr ⟨rfl, prefix_of_flatMap_prefix hf hn hinj ⟨t, h2⟩⟩

/-- An incomplete message at the end adds no message. -/
theorem length_le_of_flatMap_prefix (hf : ∀ a, (f a).length = n) {l l' : List α} {part : List β}
    (hpart : part.length < n) (h : l.flatMap f <+: l'.flatMap f ++ part) :
    l.length ≤ l'.length := by
  have hlen := h.length_le
  rw [List.length_append, length_flatMap_of_length hf, length_flatMap_of_length hf] at hlen
  by_contra hlt
  have : (l'.length + 1) * n ≤ l.length * n := Nat.mul_le_mul_right n (by omega)
  rw [Nat.add_mul] at this
  omega

/-- With a front of one more message at the end, at most that message is added. -/
theorem prefix_concat_of_flatMap_prefix (hf : ∀ a, (f a).length = n) (hn : 0 < n)
    (hinj : Function.Injective f) {l l' : List α} {a : α} {part : List β} (hpart : part <+: f a)
    (h : l.flatMap f <+: l'.flatMap f ++ part) : l <+: l' ++ [a] := by
  refine prefix_of_flatMap_prefix hf hn hinj (h.trans ?_)
  rw [List.flatMap_append, List.flatMap_singleton]
  exact (List.prefix_append_right_inj _).mpr hpart

end Frames

end Daisyway.Lib.Stream
