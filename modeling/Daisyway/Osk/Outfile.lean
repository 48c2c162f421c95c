import Daisyway.Osk.Deadman
import Daisyway.Util.Keys

/-! # The output file

For the deadman a call of its broker is one step. `OutfileOskHandler` takes many: it truncates the
file, writes the encoded key in as many writes as the system makes of it, and prints a line when all
of it is written. Here the worker and its handler run together, one operation a step; the daemon is
the only one that writes the file.

At every moment the file holds the front of the text of one call (`Phase`), so no reader ever gets
bytes of two keys. Between two calls the text is complete and loads as the key of the last call.
While a call writes, a reader can get a key: `loadBase64KeyFile` accepts every front of whole groups
and fills up with zeros (`outfile_integrity`). -/

namespace Daisyway.Osk.Outfile

open Daisyway.Prim Daisyway.Lib.Run Daisyway.Osk.Deadman Daisyway.Util.ReadExt Daisyway.Util.Keys
open Daisyway.Etsi014 (Base64Decode)
open Daisyway.Lib.Base64 (StrictDecoder encode encodedLen length_encode le_of_mem_encode
  take_encode)

/-! ### The handler -/

/-- The last word of the line a call prints. -/
def why : SetOskReason → List Char
  | .fresh => "exchanged".toList
  | .stale => "stale".toList

/-- The line a call prints; `path` is the path as it is shown. -/
def outputLine (path : List Char) (reason : SetOskReason) : List Char :=
  "output-key ".toList ++ path ++ " ".toList ++ why reason

/-- Where a call of `set_osk` is. -/
inductive OutfilePc where
  /-- Before `File::create`, with the encoded key. -/
  | create (text : Bytes)
  /-- In `write_all`, with what is left to write. -/
  | write (rest : Bytes)
  /-- Before the line is printed. -/
  | print
  deriving DecidableEq

structure OutfileOskHandler where
  /-- The content of the file, if there is one. -/
  file : Option Bytes
  stdout : List (List Char)
  /-- The call that is being made. -/
  call : Option (SetOsk × OutfilePc)
  /-- The calls that have created the file. -/
  opened : List SetOsk
  deriving DecidableEq

/-- What an operation of a call returns. -/
inductive FileAct where
  /-- The worker makes a call; `random` is the key an erase has drawn. -/
  | call (random : Key)
  | created (ok : Bool)
  /-- A write has taken `n` bytes. -/
  | wrote (n : ℕ)
  /-- A write was interrupted; `write_all` tries again. -/
  | interrupted
  | writeFailed
  | printed (ok : Bool)
  deriving DecidableEq

/-- The loop of `write_all` ends when nothing is left. -/
def afterWrite (rest : Bytes) : OutfilePc := if rest = [] then .print else .write rest

namespace OutfileOskHandler

/-- The handler at the start of the daemon, with the file that was there. -/
def new (file : Option Bytes) : OutfileOskHandler := ⟨file, [], none, []⟩

/-- `expect`, and `unwrap_or_else` with a panic. -/
def panics (h : OutfileOskHandler) (call : SetOsk) : OutfileOskHandler × Option WorkerAct :=
  ({ h with call := none }, some (.broker call.key .panicked))

/-- One operation, where `pc` is the place of the worker: the handler after it and, if the call has
ended with it, the step of the worker. -/
def step (path : List Char) (pc : WorkerPc) (h : OutfileOskHandler) (a : FileAct) :
    Option (OutfileOskHandler × Option WorkerAct) :=
  match h.call, a with
  | none, .call random =>
    (pc.brokerCall random).map fun call =>
      match outfileText call.key with
      | some text => ({ h with call := some (call, .create text) }, none)
      | none => h.panics call
  | some (call, .create text), .created ok =>
    if ok then
      some ({ h with
        file := some []
        call := some (call, afterWrite text)
        opened := h.opened ++ [call] }, none)
    else some (h.panics call)
  | some (call, .write rest), .wrote n =>
    -- a write of nothing is an error of `write_all`
    if n = 0 then some (h.panics call)
    else if n ≤ rest.length then
      some ({ h with
        file := h.file.map (· ++ rest.take n)
        call := some (call, afterWrite (rest.drop n)) }, none)
    else none
  | some (_, .write _), .interrupted => some (h, none)
  | some (call, .write _), .writeFailed => some (h.panics call)
  | some (call, .print), .printed ok =>
    if ok then
      some ({ h with stdout := h.stdout ++ [outputLine path call.reason], call := none },
        some (.broker call.key .ok))
    else some (h.panics call)
  | _, _ => none

/-- What an operation can do. -/
inductive Trans (path : List Char) (pc : WorkerPc) (h : OutfileOskHandler) :
    FileAct → OutfileOskHandler → Option WorkerAct → Prop
  | call {random : Key} {call : SetOsk} (hcall : h.call = none)
      (hb : pc.brokerCall random = some call) :
      Trans path pc h (.call random)
        { h with call := some (call, .create (encode call.key.toList)) } none
  | created {call : SetOsk} {text : Bytes} (hcall : h.call = some (call, .create text)) :
      Trans path pc h (.created true)
        { h with
          file := some []
          call := some (call, afterWrite text)
          opened := h.opened ++ [call] } none
  | wrote {call : SetOsk} {rest : Bytes} {n : ℕ} (hcall : h.call = some (call, .write rest)) :
      Trans path pc h (.wrote n)
        { h with
          file := h.file.map (· ++ rest.take n)
          call := some (call, afterWrite (rest.drop n)) } none
  | interrupted : Trans path pc h .interrupted h none
  | printed {call : SetOsk} (hcall : h.call = some (call, .print)) :
      Trans path pc h (.printed true)
        { h with stdout := h.stdout ++ [outputLine path call.reason], call := none }
        (some (.broker call.key .ok))
  | panicked {call : SetOsk} {p : OutfilePc} {a : FileAct} (hcall : h.call = some (call, p)) :
      Trans path pc h a { h with call := none } (some (.broker call.key .panicked))

theorem step_trans {path : List Char} {pc : WorkerPc} {h h' : OutfileOskHandler} {a : FileAct}
    {ended : Option WorkerAct} (hs : h.step path pc a = some (h', ended)) :
    Trans path pc h a h' ended := by
  unfold step at hs
  split at hs
  · next random hcall =>
    obtain ⟨call, hb, he⟩ := Option.map_eq_some_iff.mp hs
    rw [outfileText_eq] at he
    cases he
    exact .call hcall hb
  · next call text ok hcall =>
    split_ifs at hs with hok
    · subst hok
      cases hs
      exact .created hcall
    · cases hs
      exact .panicked hcall
  · next call rest n hcall =>
    split_ifs at hs with hn hle
    · cases hs
      exact .panicked hcall
    · cases hs
      exact .wrote hcall
  · cases hs
    exact .interrupted
  · next hcall =>
    cases hs
    exact .panicked hcall
  · next call ok hcall =>
    split_ifs at hs with hok
    · subst hok
      cases hs
      exact .printed hcall
    · cases hs
      exact .panicked hcall
  · cases hs

end OutfileOskHandler

/-! ### The worker with its handler -/

structure OutfileWorker where
  worker : DeadmanWorker
  handler : OutfileOskHandler
  deriving DecidableEq

namespace OutfileWorker

def new (file : Option Bytes) : OutfileWorker := ⟨DeadmanWorker.new, .new file⟩

inductive Act where
  | worker (a : WorkerAct)
  | file (a : FileAct)
  deriving DecidableEq

/-- The step of the worker that ends a call, if there is one. -/
def finish (t : Timing) (s : OutfileWorker) (r : OutfileOskHandler × Option WorkerAct) :
    Option OutfileWorker :=
  match r.2 with
  | none => some { s with handler := r.1 }
  | some ended => (s.worker.step t ended).map fun worker => ⟨worker, r.1⟩

/-- A call of the broker is made by the operations of the handler. -/
def step (t : Timing) (path : List Char) (s : OutfileWorker) : Act → Option OutfileWorker
  | .worker (.broker _ _) => none
  | .worker a => (s.worker.step t a).map fun worker => { s with worker }
  | .file a => (s.handler.step path s.worker.pc a).bind (s.finish t)

end OutfileWorker

/-! ### What the file holds -/

/-- The file holds the text of the last call that created it, up to `rest`; before the first one it
is as it was. -/
def Holds (file : Option Bytes) (h : OutfileOskHandler) (rest : Bytes) : Prop :=
  match h.opened.getLast? with
  | none => h.file = file
  | some call => ∃ done, h.file = some done ∧ done ++ rest = encode call.key.toList

/-- The lines of calls that have ended. -/
def lines (path : List Char) (calls : List SetOsk) : List (List Char) :=
  calls.map fun call => outputLine path call.reason

/-- Where the worker and its handler can be. -/
inductive Phase (file : Option Bytes) (path : List Char) (s : OutfileWorker) : Prop
  | between (hcall : s.handler.call = none) (hpc : s.worker.pc ≠ .panicked)
      (hfail : s.worker.pc ≠ .failed) (hopened : s.handler.opened = s.worker.calls)
      (hlines : s.handler.stdout = lines path s.worker.calls) (hfile : Holds file s.handler [])
  | create {call : SetOsk}
      (hcall : s.handler.call = some (call, .create (encode call.key.toList)))
      (hb : s.worker.pc.brokerCall call.key = some call)
      (hopened : s.handler.opened = s.worker.calls)
      (hlines : s.handler.stdout = lines path s.worker.calls) (hfile : Holds file s.handler [])
  | write {call : SetOsk} {rest : Bytes} (hcall : s.handler.call = some (call, afterWrite rest))
      (hb : s.worker.pc.brokerCall call.key = some call)
      (hopened : s.handler.opened = s.worker.calls ++ [call])
      (hlines : s.handler.stdout = lines path s.worker.calls) (hfile : Holds file s.handler rest)
  | panicked (hcall : s.handler.call = none) (hpc : s.worker.pc = .panicked)
      (hopened : s.handler.opened <+: s.worker.calls)
      (hmost : s.worker.calls.length ≤ s.handler.opened.length + 1)
      (hlines : s.handler.stdout <+: lines path s.worker.calls)
      (hfile : ∃ rest, Holds file s.handler rest)

section Run
variable {t : Timing} {path : List Char} {file : Option Bytes} {s s' : OutfileWorker}

theorem phase_worker (h : Phase file path s) {a : WorkerAct} {worker : DeadmanWorker}
    (ha : ∀ random res, a ≠ .broker random res) (hs : s.worker.step t a = some worker) :
    Phase file path { s with worker } := by
  obtain ⟨hcalls, hfailed⟩ := step_between hs ha
  cases h with
  | between hcall hpc hfail hopened hlines hfile =>
    have hopened' : s.handler.opened = worker.calls := hopened.trans hcalls.symm
    have hlines' : s.handler.stdout = lines path worker.calls := by rw [hcalls, hlines]
    by_cases hp : worker.pc = .panicked
    · exact .panicked hcall hp (hopened' ▸ List.prefix_rfl) (hopened' ▸ Nat.le_succ _)
        (hlines' ▸ List.prefix_rfl) ⟨[], hfile⟩
    · exact .between hcall hp hfailed hopened' hlines' hfile
  | create hcall hb hopened hlines hfile =>
    obtain ⟨random, res, rfl⟩ := step_of_brokerCall hb hs
    exact absurd rfl (ha random res)
  | write hcall hb hopened hlines hfile =>
    obtain ⟨random, res, rfl⟩ := step_of_brokerCall hb hs
    exact absurd rfl (ha random res)
  | panicked hcall hpc =>
    rw [step_of_stopped (by rw [hpc]; rfl)] at hs
    cases hs

/-- The worker is at a call while the handler makes one. -/
theorem Phase.brokerCall (h : Phase file path s) {call : SetOsk} {p : OutfilePc}
    (hcall : s.handler.call = some (call, p)) :
    s.worker.pc.brokerCall call.key = some call ∧ s.handler.opened <+: s.worker.calls ++ [call] ∧
      s.worker.calls.length ≤ s.handler.opened.length ∧
      s.handler.stdout = lines path s.worker.calls ∧ ∃ rest, Holds file s.handler rest := by
  cases h with
  | between hnone => rw [hnone] at hcall; cases hcall
  | create hcall' hb hopened hlines hfile =>
    obtain ⟨rfl, -⟩ := Prod.mk.inj (Option.some.inj (hcall'.symm.trans hcall))
    exact ⟨hb, hopened ▸ List.prefix_append _ _, hopened ▸ le_rfl, hlines, [], hfile⟩
  | write hcall' hb hopened hlines hfile =>
    obtain ⟨rfl, -⟩ := Prod.mk.inj (Option.some.inj (hcall'.symm.trans hcall))
    refine ⟨hb, hopened ▸ List.prefix_rfl, ?_, hlines, _, hfile⟩
    rw [hopened, List.length_append]
    exact Nat.le_add_right _ _
  | panicked hnone => rw [hnone] at hcall; cases hcall

theorem holds_created {h : OutfileOskHandler} {call : SetOsk} {p : Option (SetOsk × OutfilePc)} :
    Holds file { h with file := some [], call := p, opened := h.opened ++ [call] }
      (encode call.key.toList) := by
  unfold Holds
  rw [List.getLast?_concat]
  exact ⟨[], rfl, rfl⟩

theorem holds_wrote {h : OutfileOskHandler} {call : SetOsk} {rest : Bytes} {n : ℕ}
    {p : Option (SetOsk × OutfilePc)} {front : List SetOsk} (hopened : h.opened = front ++ [call])
    (hh : Holds file h rest) :
    Holds file { h with file := h.file.map (· ++ rest.take n), call := p } (rest.drop n) := by
  unfold Holds at hh ⊢
  rw [hopened, List.getLast?_concat] at hh ⊢
  obtain ⟨done, hfile, htext⟩ := hh
  refine ⟨done ++ rest.take n, by rw [hfile]; rfl, ?_⟩
  rw [List.append_assoc, List.take_append_drop, htext]

theorem afterWrite_print {rest : Bytes} (h : afterWrite rest = .print) : rest = [] := by
  unfold afterWrite at h
  split_ifs at h with hrest
  exact hrest

theorem afterWrite_write {rest rest' : Bytes} (h : afterWrite rest = .write rest') :
    rest' = rest := by
  unfold afterWrite at h
  split_ifs at h with hrest
  exact (OutfilePc.write.inj h).symm

theorem afterWrite_ne_create (rest text : Bytes) : afterWrite rest ≠ .create text := by
  unfold afterWrite
  split_ifs <;> simp

theorem lines_concat (calls : List SetOsk) (call : SetOsk) :
    lines path (calls ++ [call]) = lines path calls ++ [outputLine path call.reason] := by
  unfold lines
  rw [List.map_append]
  rfl

theorem phase_file (h : Phase file path s) {a : FileAct} {handler : OutfileOskHandler}
    {ended : Option WorkerAct} (hs : s.handler.step path s.worker.pc a = some (handler, ended))
    (hf : s.finish t (handler, ended) = some s') : Phase file path s' := by
  cases OutfileOskHandler.step_trans hs with
  | call hcall hb =>
    obtain rfl := Option.some.inj hf
    cases h with
    | between hnone hpc hfail hopened hlines hfile =>
      exact .create rfl (brokerCall_key hb) hopened hlines hfile
    | create hcall' => rw [hcall] at hcall'; cases hcall'
    | write hcall' => rw [hcall] at hcall'; cases hcall'
    | panicked hnone hpc => rw [hpc] at hb; cases hb
  | @created call text hcall =>
    obtain rfl := Option.some.inj hf
    cases h with
    | between hnone => rw [hnone] at hcall; cases hcall
    | create hcall' hb hopened hlines hfile =>
      obtain ⟨rfl, htext⟩ := Prod.mk.inj (Option.some.inj (hcall'.symm.trans hcall))
      obtain rfl := OutfilePc.create.inj htext
      exact .write rfl hb (by rw [hopened]) hlines holds_created
    | write hcall' =>
      obtain ⟨-, he⟩ := Prod.mk.inj (Option.some.inj (hcall'.symm.trans hcall))
      exact absurd he (afterWrite_ne_create _ _)
    | panicked hnone => rw [hnone] at hcall; cases hcall
  | @wrote call rest n hcall =>
    obtain rfl := Option.some.inj hf
    cases h with
    | between hnone => rw [hnone] at hcall; cases hcall
    | create hcall' =>
      obtain ⟨-, he⟩ := Prod.mk.inj (Option.some.inj (hcall'.symm.trans hcall))
      cases he
    | write hcall' hb hopened hlines hfile =>
      obtain ⟨rfl, he⟩ := Prod.mk.inj (Option.some.inj (hcall'.symm.trans hcall))
      obtain rfl := afterWrite_write he
      exact .write rfl hb hopened hlines (holds_wrote hopened hfile)
    | panicked hnone => rw [hnone] at hcall; cases hcall
  | interrupted =>
    obtain rfl := Option.some.inj hf
    exact h
  | @printed call hcall =>
    obtain ⟨worker, hw, rfl⟩ := Option.map_eq_some_iff.mp hf
    cases h with
    | between hnone => rw [hnone] at hcall; cases hcall
    | create hcall' =>
      obtain ⟨-, he⟩ := Prod.mk.inj (Option.some.inj (hcall'.symm.trans hcall))
      cases he
    | write hcall' hb hopened hlines hfile =>
      obtain ⟨rfl, he⟩ := Prod.mk.inj (Option.some.inj (hcall'.symm.trans hcall))
      obtain rfl := afterWrite_print he
      obtain rfl := broker_step_eq hb hw
      refine .between rfl ?_ ?_ hopened ?_ hfile
      · dsimp only [WorkerPc.afterCall]
        split_ifs <;> simp
      · dsimp only [WorkerPc.afterCall]
        split_ifs <;> simp
      · rw [lines_concat, ← hlines]
    | panicked hnone => rw [hnone] at hcall; cases hcall
  | panicked hcall =>
    obtain ⟨worker, hw, rfl⟩ := Option.map_eq_some_iff.mp hf
    obtain ⟨hb, hopened, hmost, hlines, hfile⟩ := h.brokerCall hcall
    obtain rfl := broker_step_eq hb hw
    refine .panicked rfl rfl hopened ?_ ?_ hfile
    · rw [List.length_append]
      exact Nat.succ_le_succ hmost
    · rw [lines_concat, ← hlines]
      exact List.prefix_append _ _

theorem step_phase {a : OutfileWorker.Act} (h : Phase file path s)
    (hs : s.step t path a = some s') : Phase file path s' := by
  cases a with
  | worker a =>
    cases a with
    | broker => cases hs
    | arm | received | closed | elapsed =>
      obtain ⟨worker, hw, rfl⟩ := Option.map_eq_some_iff.mp hs
      exact phase_worker h (by simp) hw
  | file a =>
    obtain ⟨⟨handler, ended⟩, hstep, hf⟩ := Option.bind_eq_some_iff.mp hs
    exact phase_file h hstep hf

theorem phase_new : Phase file path (OutfileWorker.new file) :=
  .between rfl WorkerPc.noConfusion WorkerPc.noConfusion rfl rfl rfl

theorem run_phase {acts : List OutfileWorker.Act}
    (hrun : run (OutfileWorker.step t path) (OutfileWorker.new file) acts = some s) :
    Phase file path s := run_invariant step_phase phase_new hrun

end Run

/-! ### Reading it -/

/-- The reads of a reader that opens the file while it has this content. -/
structure Reads {ε : Type} (content : Bytes) (reads : List (ReadOutcome ε)) : Prop where
  fits : Fits keyLengthB64 reads
  noError : endError reads = none
  stream : stream reads = content

section
variable {decode : Base64Decode}

theorem trimNewline_front {content : Bytes} {key : Key} (h : content <+: encode key.toList) :
    trimNewline content = content := by
  unfold trimNewline
  rw [if_neg]
  intro hlast
  have hle := le_of_mem_encode (h.subset (List.mem_of_getLast? hlast))
  exact absurd hle (by decide)

theorem length_encode_key (key : Key) : (encode key.toList).length = 44 := by
  rw [length_encode, Vector.length_toList]
  rfl

/-- A front of the text of a key is accepted if it consists of whole groups, and what they stand for
is filled up with zeros. -/
theorem base64ToKey_front (hd : StrictDecoder decode) {content : Bytes} {key k : Key}
    (h : content <+: encode key.toList) :
    base64ToKey decode content = .ok k ↔
      content.length % 4 = 0 ∧ k = fill keyLength (key.toList.take (3 * (content.length / 4))) := by
  have hlen : content.length ≤ 44 := length_encode_key key ▸ h.length_le
  have hkey : key.toList.length = 32 := Vector.length_toList
  have htake : content = (encode key.toList).take content.length := List.prefix_iff_eq_take.mp h
  have hfront : content.length % 4 = 0 →
      content = encode (key.toList.take (3 * (content.length / 4))) := by
    intro hmod
    by_cases hm : 3 * (content.length / 4) ≤ key.toList.length
    · rw [← take_encode _ _ hm, show 4 * (content.length / 4) = content.length by omega]
      exact htake
    · have hall : content.length = 44 := by omega
      rw [List.take_of_length_le (by omega)]
      exact h.eq_of_length (hall.trans (length_encode_key key).symm)
  have hle : (key.toList.take (3 * (content.length / 4))).length ≤ keyLength := by
    rw [List.length_take, hkey]
    exact Nat.min_le_right _ _
  constructor
  · intro hk
    have hmod := (length_of_base64ToKey hd hk).2
    have hok := (base64ToKey_ok hd).mpr ⟨_, hfront hmod, hle, rfl⟩
    exact ⟨hmod, Except.ok.inj (hk.symm.trans hok)⟩
  · rintro ⟨hmod, rfl⟩
    exact (base64ToKey_ok hd).mpr ⟨_, hfront hmod, hle, rfl⟩

theorem load_front {ε : Type} (hd : StrictDecoder decode) {content : Bytes} {key : Key}
    (h : content <+: encode key.toList) {reads : List (ReadOutcome ε)} (hr : Reads content reads)
    (k : Key) :
    loadBase64KeyFile decode (.ok reads) = .ok k ↔
      content.length % 4 = 0 ∧ k = fill keyLength (key.toList.take (3 * (content.length / 4))) := by
  rw [load_ok_iff hr.fits (Or.inl hr.noError), trimNewline_take_ok_iff hd, hr.stream,
    trimNewline_front h]
  exact base64ToKey_front hd h

theorem load_whole {ε : Type} (hd : StrictDecoder decode) {key : Key}
    {reads : List (ReadOutcome ε)} (hr : Reads (encode key.toList) reads) :
    loadBase64KeyFile decode (.ok reads) = .ok key := by
  refine (load_ok_iff hr.fits (Or.inl hr.noError)).mpr ((trimNewline_take_ok_iff hd _ _).mpr ?_)
  rw [hr.stream, trimNewline_encode]
  exact base64ToKey_encode hd key

end

/-! ### Integrity -/

/-- The calls that were begun. -/
def begun (s : OutfileWorker) : List SetOsk :=
  s.worker.calls ++ (s.handler.call.map Prod.fst).toList

section Integrity
variable {t : Timing} {path : List Char} {file : Option Bytes} {s : OutfileWorker}

/-- Every call that was begun has created the file, except for the last one at most. -/
theorem Phase.opened (h : Phase file path s) :
    s.handler.opened <+: begun s ∧ (begun s).length ≤ s.handler.opened.length + 1 := by
  unfold begun
  cases h with
  | between hcall hpc hfail hopened hlines hfile =>
    rw [hcall, hopened]
    simp
  | create hcall hb hopened hlines hfile =>
    rw [hcall, hopened]
    simp
  | write hcall hb hopened hlines hfile =>
    rw [hcall, hopened]
    simp
  | panicked hcall hpc hopened hmost hlines hfile =>
    rw [hcall]
    simpa using ⟨hopened, hmost⟩

theorem Phase.holds (h : Phase file path s) : ∃ rest, Holds file s.handler rest := by
  cases h with
  | between _ _ _ _ _ hfile => exact ⟨[], hfile⟩
  | create _ _ _ _ hfile => exact ⟨[], hfile⟩
  | write _ _ _ _ hfile => exact ⟨_, hfile⟩
  | panicked _ _ _ _ _ hfile => exact hfile

theorem Phase.untouched (h : Phase file path s) (hnone : s.handler.opened = []) :
    s.handler.file = file := by
  obtain ⟨rest, hfile⟩ := h.holds
  unfold Holds at hfile
  rwa [hnone] at hfile

/-- The file holds the front of one text. -/
theorem Phase.front (h : Phase file path s) {call : SetOsk}
    (hlast : s.handler.opened.getLast? = some call) :
    ∃ content, s.handler.file = some content ∧ content <+: encode call.key.toList := by
  obtain ⟨rest, hfile⟩ := h.holds
  unfold Holds at hfile
  rw [hlast] at hfile
  obtain ⟨content, hcontent, htext⟩ := hfile
  exact ⟨content, hcontent, rest, htext⟩

/-- Between two calls the text of the last one is complete, and every call has printed its line. -/
theorem Phase.complete (h : Phase file path s) (hcall : s.handler.call = none)
    (hpc : s.worker.pc ≠ .panicked) :
    s.handler.opened = s.worker.calls ∧ s.handler.stdout = lines path s.worker.calls ∧
      ∀ call, s.worker.calls.getLast? = some call →
        s.handler.file = some (encode call.key.toList) := by
  cases h with
  | between _ _ _ hopened hlines hfile =>
    refine ⟨hopened, hlines, fun call hlast => ?_⟩
    unfold Holds at hfile
    rw [hopened, hlast] at hfile
    obtain ⟨content, hcontent, htext⟩ := hfile
    rw [hcontent, ← htext, List.append_nil]
  | create hsome => rw [hsome] at hcall; cases hcall
  | write hsome => rw [hsome] at hcall; cases hcall
  | panicked _ hp => exact absurd hp hpc

theorem Phase.not_failed (h : Phase file path s) : s.worker.pc ≠ .failed := by
  intro hfail
  cases h with
  | between _ _ hne => exact hne hfail
  | create _ hb => rw [hfail] at hb; cases hb
  | write _ hb => rw [hfail] at hb; cases hb
  | panicked _ hp => rw [hfail] at hp; cases hp

/-- **What a reader of the output file gets.** In every run of a worker with its handler, whatever
the writes return: the file belongs to the last call that created it, that is the last call begun or
the one before. A reader at any moment gets a key exactly if whole groups were written, and then the
bytes these stand for and zeros, never bytes of two keys. While no call is made and the worker has
not panicked, that is the key of the last call, and all calls have printed their lines. -/
theorem outfile_integrity {ε : Type} {decode : Base64Decode} (hd : StrictDecoder decode)
    {acts : List OutfileWorker.Act}
    (hrun : run (OutfileWorker.step t path) (OutfileWorker.new file) acts = some s) :
    (s.handler.opened <+: begun s ∧ (begun s).length ≤ s.handler.opened.length + 1) ∧
    (s.handler.opened = [] → s.handler.file = file) ∧
    (∀ call, s.handler.opened.getLast? = some call →
      ∃ content, s.handler.file = some content ∧ content <+: encode call.key.toList ∧
        ∀ reads : List (ReadOutcome ε), Reads content reads → ∀ k,
          loadBase64KeyFile decode (.ok reads) = .ok k ↔ content.length % 4 = 0 ∧
            k = fill keyLength (call.key.toList.take (3 * (content.length / 4)))) ∧
    (s.handler.call = none → s.worker.pc ≠ .panicked →
      s.handler.stdout = lines path s.worker.calls ∧
      ∀ call, s.worker.calls.getLast? = some call →
        s.handler.file = some (encode call.key.toList) ∧
        ∀ reads : List (ReadOutcome ε), Reads (encode call.key.toList) reads →
          loadBase64KeyFile decode (.ok reads) = .ok call.key) ∧
    s.worker.pc ≠ .failed := by
  have h := run_phase hrun
  refine ⟨h.opened, h.untouched, fun call hlast => ?_, fun hcall hpc => ?_, h.not_failed⟩
  · obtain ⟨content, hcontent, hfront⟩ := h.front hlast
    exact ⟨content, hcontent, hfront, fun reads hr k => load_front hd hfront hr k⟩
  · obtain ⟨-, hlines, hwhole⟩ := h.complete hcall hpc
    exact ⟨hlines, fun call hlast => ⟨hwhole call hlast, fun reads hr => load_whole hd hr⟩⟩

end Integrity

/-- After the erase at its start the worker is given a fresh key; eight bytes of its text are
written. -/
def sampleWrites : List OutfileWorker.Act :=
  [.file (.call (zeroed 32)), .file (.created true), .file (.wrote 40), .file .interrupted,
    .file (.wrote 4), .file (.printed true), .worker (.arm 0),
    .worker (.received (.setOsk (Vector.replicate 32 7) .fresh)), .file (.call (zeroed 32)),
    .file (.created true), .file (.wrote 8)]

/-- A reader gets six bytes of the key and zeros. -/
theorem outfile_integrity_sample :
    ∃ s content, run (OutfileWorker.step ⟨150, 2 ^ 63 - 1⟩ ['k']) (OutfileWorker.new none)
        sampleWrites = some s ∧
      s.handler.file = some content ∧
      loadBase64KeyFile Lib.Base64.decode (.ok [(.ok content : ReadOutcome Unit)]) =
        .ok (fill keyLength (List.replicate 6 7)) := by
  have h : (run (OutfileWorker.step ⟨150, 2 ^ 63 - 1⟩ ['k']) (OutfileWorker.new none)
      sampleWrites).any (fun s => decide (
        s.handler.opened.getLast? = some (setFreshOsk (Vector.replicate 32 7)) ∧
        s.handler.file = some ((encode (List.replicate 32 7)).take 8))) = true := by
    decide +kernel
  obtain ⟨s, hrun, he⟩ := (Option.any_eq_true _ _).mp h
  obtain ⟨hlast, hfile⟩ := of_decide_eq_true he
  obtain ⟨-, -, hfront, -⟩ := @outfile_integrity _ _ _ _ Unit _ Lib.Base64.decode_strict _ hrun
  obtain ⟨content, hcontent, -, hload⟩ := hfront _ hlast
  have hc : (encode (List.replicate 32 7)).take 8 = content :=
    Option.some.inj (hfile.symm.trans hcontent)
  have hr : Reads content [(.ok content : ReadOutcome Unit)] := by
    subst hc
    refine ⟨?_, rfl, ?_⟩
    · simp [Fits, encode, Lib.Base64.group, keyLengthB64, keyLength]
    · simp [stream, encode, Lib.Base64.group]
  refine ⟨s, content, hrun, hcontent, (hload _ hr _).mpr ?_⟩
  subst hc
  refine ⟨by decide, ?_⟩
  show fill 32 _ = fill 32 _
  decide

end Daisyway.Osk.Outfile
