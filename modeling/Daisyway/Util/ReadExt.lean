import Daisyway.Prim

/-! # Bounded reading

`readToEndUpTo` fills a buffer from a reader until the buffer is full or the reader is at its end.
What the reader does is the environment's choice: a list of outcomes, one for each call of `read`;
after the last one the reader is at its end. The data the outcomes carry before the first end of
file or error is their `stream`, and `endError` is the error it ends with, if any. The chunks in
which the stream arrives do not matter (`readLoop_eq`, `read_chunk_independent`). -/

namespace Daisyway.Util.ReadExt

open Daisyway.Prim

/-- The outcome of one call of `read`: `ok` carries the bytes written to the front of the space
offered (no bytes at the end of file), `error` any error but an interruption. -/
inductive ReadOutcome (ε : Type) where
  | ok (bytes : Bytes)
  | interrupted
  | error (e : ε)
  deriving DecidableEq

section
variable {ε : Type}

/-! ### The loop -/

/-- The buffer after `bytes` were written to it from the index `red` on. A slice cannot be written
beyond its end. -/
def overwrite (buf : Bytes) (red : ℕ) (bytes : Bytes) : Bytes :=
  buf.take red ++ (bytes.take (buf.length - red) ++ buf.drop (red + bytes.length))

/-- The loop with `red` bytes read so far: its result and the buffer it leaves. -/
def readLoop (outcomes : List (ReadOutcome ε)) (buf : Bytes) (red : ℕ) : Outcome ε ℕ × Bytes :=
  -- `&mut buf[red..]`
  if buf.length < red then (.panicked, buf)
  else if buf.length = red then (.ok red, buf)
  else
    match outcomes with
    | [] => (.ok red, buf)
    | .ok [] :: _ => (.ok red, buf)
    | .ok (b :: bs) :: rest =>
      readLoop rest (overwrite buf red (b :: bs)) (red + (b :: bs).length)
    | .interrupted :: rest => readLoop rest buf red
    | .error e :: _ => (.err e, buf)

def readToEndUpTo (outcomes : List (ReadOutcome ε)) (buf : Bytes) : Outcome ε ℕ × Bytes :=
  readLoop outcomes buf 0

/-! ### The stream behind the outcomes -/

/-- The data before the first end of file or error. -/
def stream : List (ReadOutcome ε) → Bytes
  | [] => []
  | .ok [] :: _ => []
  | .ok (b :: bs) :: rest => (b :: bs) ++ stream rest
  | .interrupted :: rest => stream rest
  | .error _ :: _ => []

/-- The error the stream ends with, if it does not end with an end of file. -/
def endError : List (ReadOutcome ε) → Option ε
  | [] => none
  | .ok [] :: _ => none
  | .ok (_ :: _) :: rest => endError rest
  | .interrupted :: rest => endError rest
  | .error e :: _ => some e

/-- The contract of `read`: no call delivers more bytes than the space it is offered, where `space`
bytes are free at first. Nothing is said of calls that are not made. -/
def Fits : ℕ → List (ReadOutcome ε) → Prop
  | _, [] => True
  | _, .ok [] :: _ => True
  | space, .ok (b :: bs) :: rest =>
    0 < space → (b :: bs).length ≤ space ∧ Fits (space - (b :: bs).length) rest
  | space, .interrupted :: rest => Fits space rest
  | _, .error _ :: _ => True

/-! ### Chunk independence -/

theorem overwrite_append {front back bytes : Bytes} (h : bytes.length ≤ back.length) :
    overwrite (front ++ back) front.length bytes = (front ++ bytes) ++ back.drop bytes.length := by
  have hb : bytes.take ((front ++ back).length - front.length) = bytes := by
    apply List.take_of_length_le
    rw [List.length_append]
    omega
  unfold overwrite
  rw [hb, List.take_left, ← List.drop_drop, List.drop_left, List.append_assoc]

theorem readLoop_full (outcomes : List (ReadOutcome ε)) (front : Bytes) :
    readLoop outcomes (front ++ []) front.length = (.ok front.length, front) := by
  unfold readLoop
  simp

/-- One call of `read` while there is space left. -/
theorem readLoop_step {outcomes : List (ReadOutcome ε)} {front back : Bytes} (h : back ≠ []) :
    readLoop outcomes (front ++ back) front.length =
      match outcomes with
      | [] => (.ok front.length, front ++ back)
      | .ok [] :: _ => (.ok front.length, front ++ back)
      | .ok (b :: bs) :: rest =>
        readLoop rest (overwrite (front ++ back) front.length (b :: bs))
          (front.length + (b :: bs).length)
      | .interrupted :: rest => readLoop rest (front ++ back) front.length
      | .error e :: _ => (.err e, front ++ back) := by
  have hpos : 0 < back.length := List.length_pos_iff.mpr h
  have hlen : (front ++ back).length = front.length + back.length := List.length_append
  rw [readLoop.eq_def, if_neg (by omega), if_neg (by omega)]

/-- A chunk moves from `back` to `front`. -/
theorem readLoop_chunk {rest : List (ReadOutcome ε)} {front back bs : Bytes} {b : UInt8}
    (hle : (b :: bs).length ≤ back.length) :
    readLoop (.ok (b :: bs) :: rest) (front ++ back) front.length =
      readLoop rest ((front ++ (b :: bs)) ++ back.drop (b :: bs).length)
        (front ++ (b :: bs)).length := by
  have hb : back ≠ [] := by
    rintro rfl
    simp at hle
  rw [readLoop_step hb]
  dsimp only
  rw [overwrite_append hle, List.length_append]

/-- The loop with `front` read and `back` still free, on a stream that fills the buffer or ends
without an error. The induction is on the outcomes. -/
theorem readLoop_eq (outcomes : List (ReadOutcome ε)) : ∀ front back : Bytes,
    Fits back.length outcomes →
    (endError outcomes = none ∨ back.length ≤ (stream outcomes).length) →
      readLoop outcomes (front ++ back) front.length =
        (.ok (front.length + min back.length (stream outcomes).length),
          front ++ ((stream outcomes).take back.length ++
            back.drop (stream outcomes).length)) := by
  induction outcomes with
  | nil =>
    intro front back _ _
    by_cases hb : back = []
    · subst hb
      rw [readLoop_full]
      simp
    · rw [readLoop_step hb]
      simp [stream]
  | cons o rest ih =>
    intro front back hfit hend
    by_cases hb : back = []
    · subst hb
      rw [readLoop_full]
      simp
    · have hpos : 0 < back.length := List.length_pos_iff.mpr hb
      rcases o with (_ | ⟨b, bs⟩) | _ | e
      · rw [readLoop_step hb]
        simp [stream]
      · obtain ⟨hle, hfit'⟩ := hfit hpos
        have hdrop : (back.drop (b :: bs).length).length = back.length - (b :: bs).length :=
          List.length_drop
        have hend' : endError rest = none ∨
            (back.drop (b :: bs).length).length ≤ (stream rest).length := by
          rcases hend with hend | hend
          · exact Or.inl hend
          · right
            rw [stream, List.length_append] at hend
            omega
        have htake : ((b :: bs) ++ stream rest).take back.length =
            (b :: bs) ++ (stream rest).take (back.length - (b :: bs).length) := by
          rw [List.take_append, List.take_of_length_le hle]
        have hmin : front.length + (b :: bs).length +
            min (back.length - (b :: bs).length) (stream rest).length =
              front.length + min back.length ((b :: bs) ++ stream rest).length := by
          rw [List.length_append]
          omega
        rw [readLoop_chunk hle, ih _ _ (hdrop ▸ hfit') hend', List.length_append]
        simp only [stream, hdrop, hmin, htake, List.drop_drop, List.length_append,
          List.append_assoc]
      · rw [readLoop_step hb]
        exact ih front back hfit hend
      · rcases hend with hend | hend
        · exact absurd hend (by simp [endError])
        · simp only [stream, List.length_nil] at hend
          omega

/-- The loop on a stream that ends with an error before the buffer is full. -/
theorem readLoop_error (outcomes : List (ReadOutcome ε)) {e : ε} : ∀ front back : Bytes,
    Fits back.length outcomes → endError outcomes = some e →
    (stream outcomes).length < back.length →
      (readLoop outcomes (front ++ back) front.length).1 = .err e := by
  induction outcomes with
  | nil =>
    intro front back _ hend _
    exact absurd hend (by simp [endError])
  | cons o rest ih =>
    intro front back hfit hend hlt
    have hpos : 0 < back.length := by omega
    have hb : back ≠ [] := List.length_pos_iff.mp hpos
    rcases o with (_ | ⟨b, bs⟩) | _ | e'
    · exact absurd hend (by simp [endError])
    · obtain ⟨hle, hfit'⟩ := hfit hpos
      have hdrop : (back.drop (b :: bs).length).length = back.length - (b :: bs).length :=
        List.length_drop
      have hlt' : (stream rest).length < (back.drop (b :: bs).length).length := by
        rw [stream, List.length_append] at hlt
        omega
      rw [readLoop_chunk hle]
      exact ih _ _ (hdrop ▸ hfit') hend hlt'
    · rw [readLoop_step hb]
      exact ih front back hfit hend hlt
    · rw [readLoop_step hb]
      exact congrArg Outcome.err (Option.some.inj hend)

/-- Reading a stream that ends without an error. -/
theorem readToEndUpTo_eq {outcomes : List (ReadOutcome ε)} {buf : Bytes}
    (hfit : Fits buf.length outcomes)
    (hend : endError outcomes = none ∨ buf.length ≤ (stream outcomes).length) :
    readToEndUpTo outcomes buf =
      (.ok (min buf.length (stream outcomes).length),
        (stream outcomes).take buf.length ++ buf.drop (stream outcomes).length) := by
  have h := readLoop_eq outcomes [] buf hfit hend
  rwa [List.nil_append, List.length_nil, Nat.zero_add] at h

/-- Reading a stream that ends with an error before the buffer is full. -/
theorem readToEndUpTo_error {outcomes : List (ReadOutcome ε)} {buf : Bytes} {e : ε}
    (hfit : Fits buf.length outcomes) (hend : endError outcomes = some e)
    (hlt : (stream outcomes).length < buf.length) :
    (readToEndUpTo outcomes buf).1 = .err e :=
  readLoop_error outcomes [] buf hfit hend hlt

/-- **Chunk independence.** Whatever the chunk boundaries and interruptions, nothing is sliced out
of range. If no error comes before the buffer is full or the file is at its end, `m` bytes are read,
the first `m` bytes of the stream, and the rest of the buffer is as before; otherwise that error is
returned. -/
theorem read_chunk_independent (outcomes : List (ReadOutcome ε)) (buf : Bytes)
    (hfit : Fits buf.length outcomes) :
    (readToEndUpTo outcomes buf).1 ≠ .panicked ∧
    (endError outcomes = none ∨ buf.length ≤ (stream outcomes).length →
      ∃ m, m = min buf.length (stream outcomes).length ∧
        readToEndUpTo outcomes buf = (.ok m, (stream outcomes).take m ++ buf.drop m)) ∧
    (∀ e, endError outcomes = some e → (stream outcomes).length < buf.length →
      (readToEndUpTo outcomes buf).1 = .err e) := by
  have hok : endError outcomes = none ∨ buf.length ≤ (stream outcomes).length →
      ∃ m, m = min buf.length (stream outcomes).length ∧
        readToEndUpTo outcomes buf = (.ok m, (stream outcomes).take m ++ buf.drop m) := by
    intro hend
    refine ⟨_, rfl, ?_⟩
    rw [readToEndUpTo_eq hfit hend]
    by_cases hle : buf.length ≤ (stream outcomes).length
    · rw [Nat.min_eq_left hle, List.drop_length, List.drop_of_length_le hle]
    · have hle' : (stream outcomes).length ≤ buf.length := by omega
      rw [Nat.min_eq_right hle', List.take_length, List.take_of_length_le hle']
  have herr : ∀ e, endError outcomes = some e → (stream outcomes).length < buf.length →
      (readToEndUpTo outcomes buf).1 = .err e := by
    intro e hend hlt
    exact readToEndUpTo_error hfit hend hlt
  refine ⟨?_, hok, herr⟩
  by_cases hle : buf.length ≤ (stream outcomes).length
  · obtain ⟨m, -, hm⟩ := hok (Or.inr hle)
    simp [hm]
  · cases he : endError outcomes with
    | none =>
      obtain ⟨m, -, hm⟩ := hok (Or.inl he)
      simp [hm]
    | some e =>
      rw [herr e he (by omega)]
      simp

end

/-- Two chunks, an interruption and a byte that does not fit any more. -/
def sampleReads : List (ReadOutcome Unit) := [.ok [1, 2], .interrupted, .ok [3], .ok [4]]

theorem read_chunk_independent_sample :
    Fits 3 sampleReads ∧ readToEndUpTo sampleReads [0, 0, 0] = (.ok 3, [1, 2, 3]) := by
  have hfit : Fits 3 sampleReads := by simp [sampleReads, Fits]
  obtain ⟨-, hok, -⟩ := read_chunk_independent sampleReads [0, 0, 0] hfit
  obtain ⟨m, rfl, h⟩ := hok (Or.inl rfl)
  exact ⟨hfit, h⟩

end Daisyway.Util.ReadExt
