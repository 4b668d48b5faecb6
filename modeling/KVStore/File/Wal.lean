/-
# `KVStore.File.Wal` — frames, `appendWAL` and `replayWAL`

The log file is a concatenation of frames, each a 4-byte big-endian length and
that many bytes of `json.Marshal` output (`frame`).  `appendWAL` checks the op
and the 1024-byte bound, then writes the length, writes the payload and calls
`Sync`; a write that fails part way leaves the bytes it managed in the file,
and nothing is rolled back (`appendWAL_cases`).  `replayWAL` reads frames from
the start until the file ends: an end of file at a frame boundary, or within
the length, or within a payload that has begun, ends the replay without error;
a length over the bound, a payload of which not one byte is there, an
undecodable payload or an unknown op is an error.

The replay loop is written once, over any accumulator (`replayFrames`): with
`applyCommand` it is `replayWAL`, with a list it yields the commands the log
decodes to (`walCommands`), and the two agree (`replayWAL_eq`).
`replayFrames_frames` is the framing half of the round trip: a file of whole
frames of valid commands replays to exactly those commands.

Seeking, and I/O errors other than the end of file while reading, are not
modelled: the file is the bytes written to it, read from the start.
-/
import KVStore.Json.RoundTrip

namespace KVStore.File

open KVStore.Json

/-- `maxWALFrameSize`: `1 << 10`. -/
def maxWALFrameSize : Nat := 1 <<< 10

/-- `binary.BigEndian.PutUint32`: the bytes `v >> 24`, `v >> 16`, `v >> 8`
and `v`, each truncated to a byte. -/
def putUint32 (v : UInt32) : List UInt8 :=
  [UInt8.ofNat (v.toNat / 0x1000000), UInt8.ofNat (v.toNat / 0x10000),
    UInt8.ofNat (v.toNat / 0x100), UInt8.ofNat v.toNat]

/-- `binary.BigEndian.Uint32` on the four bytes of the length buffer. -/
def uint32 (b : List UInt8) : UInt32 :=
  UInt32.ofNat ((b.getD 0 0).toNat * 0x1000000 + (b.getD 1 0).toNat * 0x10000 +
    (b.getD 2 0).toNat * 0x100 + (b.getD 3 0).toNat)

/-- The errors of `appendWAL` and `replayWAL`, with the data their messages
print. -/
inductive WalError where
  | frameTooLarge (size : Nat)
  | readPayload
  | decode
  | unknownOp (op : String)
  | payloadTooLarge (size : Nat)
  | writeLength
  | writePayload
  | sync
deriving DecidableEq, Repr

/-- What `readFullWithEOFAsBoundary` reports. -/
inductive ReadResult where
  | ok (data rest : List UInt8)
  | eof
  | unexpectedEOF
deriving DecidableEq, Repr

/-- `readFullWithEOFAsBoundary`: `io.ReadFull` of `n` bytes from what is left
of the file, with an end of file before any byte read as `io.EOF` and one after
some bytes as `io.ErrUnexpectedEOF`. -/
def readFullWithEOFAsBoundary (n : Nat) (file : List UInt8) : ReadResult :=
  if n ≤ file.length then .ok (file.take n) (file.drop n)
  else if file = [] then .eof else .unexpectedEOF

theorem readFull_ok {n : Nat} {file data rest : List UInt8}
    (h : readFullWithEOFAsBoundary n file = .ok data rest) :
    data = file.take n ∧ rest = file.drop n ∧ n ≤ file.length := by
  unfold readFullWithEOFAsBoundary at h
  split_ifs at h with h1
  · cases h; exact ⟨rfl, rfl, h1⟩

/-- The replay loop over any accumulator: `apply` is what a decoded command
does to it. -/
def replayFrames {σ : Type} (apply : σ → WalCommand → σ) (acc : σ) (file : List UInt8) :
    Except WalError σ :=
  match h : readFullWithEOFAsBoundary 4 file with
  | .eof => .ok acc
  | .unexpectedEOF => .ok acc
  | .ok lenBuf rest =>
    if (uint32 lenBuf).toNat > maxWALFrameSize then .error (.frameTooLarge (uint32 lenBuf).toNat)
    else
      match h' : readFullWithEOFAsBoundary (uint32 lenBuf).toNat rest with
      | .unexpectedEOF => .ok acc
      | .eof => .error .readPayload
      | .ok payload rest' =>
        match unmarshal payload with
        | none => .error .decode
        | some cmd =>
          if isValidOp cmd.op then replayFrames apply (apply acc cmd) rest'
          else .error (.unknownOp cmd.op)
termination_by file.length
decreasing_by
  obtain ⟨-, rfl, h4⟩ := readFull_ok h
  obtain ⟨-, rfl, -⟩ := readFull_ok h'
  simp only [List.length_drop]
  omega

/-- `replayWAL`: the frames of the file applied to the tree. -/
def replayWAL (t : BTree) (file : List UInt8) : Except WalError BTree :=
  replayFrames applyCommand t file

/-- The commands the file decodes to, in order. -/
def walCommands (file : List UInt8) : Except WalError (List WalCommand) :=
  replayFrames (fun cs c => cs ++ [c]) [] file

/-- What `appendWAL` writes for one command. -/
def frame (cmd : WalCommand) : List UInt8 :=
  putUint32 (UInt32.ofNat (marshal cmd).length) ++ marshal cmd

/-- A log of whole frames. -/
def frames (cs : List WalCommand) : List UInt8 := cs.flatMap frame

/-- A command `appendWAL` accepts: a valid op and a payload within the bound. -/
def Fits (cmd : WalCommand) : Prop := isValidOp cmd.op ∧ (marshal cmd).length ≤ maxWALFrameSize

instance (cmd : WalCommand) : Decidable (Fits cmd) := inferInstanceAs (Decidable (_ ∧ _))

/-! ## Reading frames back -/

@[simp] theorem putUint32_length (v : UInt32) : (putUint32 v).length = 4 := rfl

theorem maxWALFrameSize_eq : maxWALFrameSize = 1024 := rfl

theorem uint32_putUint32 (v : UInt32) : uint32 (putUint32 v) = v := by
  apply UInt32.toNat.inj
  have hv : v.toNat < 0x100000000 := v.toNat_lt_size
  show ((v.toNat / 0x1000000) % 0x100 * 0x1000000 + (v.toNat / 0x10000) % 0x100 * 0x10000 +
    (v.toNat / 0x100) % 0x100 * 0x100 + v.toNat % 0x100) % 0x100000000 = v.toNat
  omega

@[simp] theorem frame_length (cmd : WalCommand) :
    (frame cmd).length = 4 + (marshal cmd).length := by
  simp [frame]

theorem frame_take_header (cmd : WalCommand) {k : Nat} (hk : k ≤ 4) :
    (frame cmd).take k = (putUint32 (UInt32.ofNat (marshal cmd).length)).take k :=
  List.take_append_of_le_length (by simpa using hk)

theorem frame_take_payload (cmd : WalCommand) (j : Nat) :
    (frame cmd).take (4 + j) =
      putUint32 (UInt32.ofNat (marshal cmd).length) ++ (marshal cmd).take j := by
  rw [frame, List.take_append_eq_append_take, List.take_of_length_le (by simp), putUint32_length,
    Nat.add_sub_cancel_left]

theorem marshal_ne_nil (cmd : WalCommand) : marshal cmd ≠ [] := by
  simp [marshal]

/-- The first byte of a frame within the bound is `0`: its length is below
`1 << 24`. -/
theorem frame_eq_cons {cmd : WalCommand} (hc : Fits cmd) : frame cmd = 0 :: (frame cmd).tail := by
  have hm := hc.2
  rw [maxWALFrameSize_eq] at hm
  have h0 : (UInt32.ofNat (marshal cmd).length).toNat / 0x1000000 = 0 := by
    rw [UInt32.toNat_ofNat_of_lt (show (marshal cmd).length < 0x100000000 by omega)]
    omega
  simp only [frame, putUint32, h0, List.cons_append, List.tail_cons]
  rfl

/-- A header of a length within the bound reads back as that length. -/
theorem uint32_header {n : Nat} (hn : n ≤ maxWALFrameSize) :
    (uint32 (putUint32 (UInt32.ofNat n))).toNat = n := by
  rw [uint32_putUint32, UInt32.toNat_ofNat_of_lt]
  rw [maxWALFrameSize_eq] at hn
  show n < 0x100000000
  omega

theorem readFull_append {n : Nat} {data : List UInt8} (h : data.length = n) (rest : List UInt8) :
    readFullWithEOFAsBoundary n (data ++ rest) = .ok data rest := by
  subst h
  simp [readFullWithEOFAsBoundary]

theorem readFull_short {n : Nat} {file : List UInt8} (h : file.length < n) :
    readFullWithEOFAsBoundary n file = if file = [] then .eof else .unexpectedEOF := by
  rw [readFullWithEOFAsBoundary, if_neg (by omega)]

/-- `replayFrames` one frame at a time, without the proofs of termination. -/
theorem replayFrames_eq {σ : Type} (apply : σ → WalCommand → σ) (acc : σ) (file : List UInt8) :
    replayFrames apply acc file =
      match readFullWithEOFAsBoundary 4 file with
      | .eof => .ok acc
      | .unexpectedEOF => .ok acc
      | .ok lenBuf rest =>
        if (uint32 lenBuf).toNat > maxWALFrameSize then
          .error (.frameTooLarge (uint32 lenBuf).toNat)
        else
          match readFullWithEOFAsBoundary (uint32 lenBuf).toNat rest with
          | .unexpectedEOF => .ok acc
          | .eof => .error .readPayload
          | .ok payload rest' =>
            match unmarshal payload with
            | none => .error .decode
            | some cmd =>
              if isValidOp cmd.op then replayFrames apply (apply acc cmd) rest'
              else .error (.unknownOp cmd.op) := by
  rw [replayFrames]
  split <;> rename_i heq <;> simp only [heq]
  split_ifs <;> try rfl
  split <;> rename_i heq' <;> simp only [heq']

section Replay

variable {σ : Type} (apply : σ → WalCommand → σ)

/-- Fewer than four bytes, the empty file included, end the replay. -/
theorem replayFrames_short (acc : σ) {file : List UInt8} (h : file.length < 4) :
    replayFrames apply acc file = .ok acc := by
  rw [replayFrames_eq, readFull_short h]
  split_ifs <;> rfl

/-- After a header within the bound: a whole payload is decoded and applied,
a payload cut short ends the replay, and a missing one is an error. -/
theorem replayFrames_header (acc : σ) {n : Nat} (hn : n ≤ maxWALFrameSize) (rest : List UInt8) :
    replayFrames apply acc (putUint32 (UInt32.ofNat n) ++ rest) =
      if n ≤ rest.length then
        match unmarshal (rest.take n) with
        | none => .error .decode
        | some cmd =>
          if isValidOp cmd.op then replayFrames apply (apply acc cmd) (rest.drop n)
          else .error (.unknownOp cmd.op)
      else if rest = [] then .error .readPayload else .ok acc := by
  rw [replayFrames_eq, readFull_append (putUint32_length _)]
  dsimp only
  rw [uint32_header hn, if_neg (by omega), readFullWithEOFAsBoundary]
  split_ifs <;> rfl

/-- A whole frame of a command `appendWAL` accepts is decoded and applied. -/
theorem replayFrames_frame (acc : σ) {cmd : WalCommand} (hc : Fits cmd) (rest : List UInt8) :
    replayFrames apply acc (frame cmd ++ rest) = replayFrames apply (apply acc cmd) rest := by
  rw [frame, List.append_assoc, replayFrames_header apply acc hc.2, if_pos (by simp),
    List.take_left' rfl, List.drop_left' rfl, unmarshal_marshal]
  exact if_pos hc.1

theorem replayFrames_frames (acc : σ) {cs : List WalCommand} (hcs : ∀ c ∈ cs, Fits c)
    (rest : List UInt8) :
    replayFrames apply acc (frames cs ++ rest) = replayFrames apply (cs.foldl apply acc) rest := by
  induction cs generalizing acc with
  | nil => rfl
  | cons c cs ih =>
      rw [frames, List.flatMap_cons, List.append_assoc, replayFrames_frame apply acc
        (hcs c (List.mem_cons_self c cs))]
      exact ih _ fun d hd => hcs d (List.mem_cons_of_mem c hd)

/-- A frame cut after `k` bytes: the replay ends without error, except when the
cut falls exactly after the length header. -/
theorem replayFrames_take_frame (acc : σ) {cmd : WalCommand} (hc : Fits cmd) {k : Nat}
    (hk : k < (frame cmd).length) :
    replayFrames apply acc ((frame cmd).take k) = if k = 4 then .error .readPayload else .ok acc := by
  rcases Nat.lt_or_ge k 4 with h4 | h4
  · rw [replayFrames_short apply acc (by simp; omega), if_neg (by omega)]
  · obtain ⟨j, rfl⟩ := Nat.exists_eq_add_of_le h4
    rw [frame_length] at hk
    rw [frame_take_payload, replayFrames_header apply acc hc.2, if_neg (by simp; omega)]
    simp only [List.take_eq_nil_iff, marshal_ne_nil, or_false, Nat.add_right_eq_self]

/-- Two replays whose accumulators `f` relates at every command agree. -/
theorem replayFrames_map {τ : Type} (apply' : τ → WalCommand → τ) (f : σ → τ)
    (hf : ∀ acc c, f (apply acc c) = apply' (f acc) c) (acc : σ) (file : List UInt8) :
    (replayFrames apply acc file).map f = replayFrames apply' (f acc) file := by
  induction acc, file using replayFrames.induct apply with
  | case7 acc file lenBuf rest h1 h2 payload rest' h3 cmd h4 h5 ih =>
      rw [replayFrames_eq, replayFrames_eq apply']
      simp only [h1, h2, h3, h4, h5, if_true, if_false, ih, hf]
  | _ =>
      rw [replayFrames_eq, replayFrames_eq apply']
      simp only [*, if_true, if_false, Bool.false_eq_true]
      rfl

end Replay

/-- `replayWAL` is the decoded commands applied in order. -/
theorem replayWAL_eq (t : BTree) (file : List UInt8) :
    replayWAL t file = (walCommands file).map (applyAll t) :=
  (replayFrames_map _ applyCommand (applyAll t) (fun _ _ => by simp) [] file).symm

/-- Whole frames of accepted commands decode to those commands, whatever follows. -/
theorem walCommands_frames {cs : List WalCommand} (hcs : ∀ c ∈ cs, Fits c) (rest : List UInt8) :
    walCommands (frames cs ++ rest) = (walCommands rest).map (cs ++ ·) := by
  rw [walCommands, replayFrames_frames _ _ hcs, foldl_snoc, List.nil_append, walCommands,
    replayFrames_map _ (fun acc c => acc ++ [c]) (cs ++ ·) (fun _ _ => (List.append_assoc _ _ _).symm), List.append_nil]

/-- The round trip of the log: whole frames of accepted commands decode to
exactly those commands. -/
theorem walCommands_frames_nil {cs : List WalCommand} (hcs : ∀ c ∈ cs, Fits c) :
    walCommands (frames cs) = .ok cs := by
  rw [← List.append_nil (frames cs), walCommands_frames hcs, walCommands,
    replayFrames_short _ _ (by simp)]
  simp [Except.map]

theorem replayWAL_frames (t : BTree) {cs : List WalCommand} (hcs : ∀ c ∈ cs, Fits c) :
    replayWAL t (frames cs) = .ok (applyAll t cs) := by
  rw [replayWAL_eq, walCommands_frames_nil hcs]
  rfl

/-! ## Which commands fit -/

/-- The commands `Put`, `Swap` and `Delete` log pass the 1024-byte check
exactly when their escaped key and value fit in what the op and the JSON
syntax leave; escaping a string gives at least its UTF-8 bytes and at most six
bytes a rune. -/
theorem fits_iff_escapedLength :
    (∀ k v : String, Fits ⟨"put", k, v⟩ ↔
      escapedLength k + (if v = "" then 0 else 11 + escapedLength v) ≤ 1003) ∧
    (∀ k v : String, Fits ⟨"swap", k, v⟩ ↔
      escapedLength k + (if v = "" then 0 else 11 + escapedLength v) ≤ 1002) ∧
    (∀ k : String, Fits ⟨"delete", k, ""⟩ ↔ escapedLength k ≤ 1000) ∧
    (∀ s : String, (goBytes s).length ≤ escapedLength s ∧ escapedLength s ≤ 6 * s.length) := by
  have hput : escapedLength "put" = 3 := rfl
  have hswap : escapedLength "swap" = 4 := rfl
  have hdelete : escapedLength "delete" = 6 := rfl
  refine ⟨fun k v => ?_, fun k v => ?_, fun k => ?_, escapedLength_bounds⟩ <;>
    simp only [Fits, marshal_length_eq, maxWALFrameSize_eq, hput, hswap, hdelete,
      show ∀ op, isValidOp op = true ↔ op = "put" ∨ op = "swap" ∨ op = "delete" by
        simp [isValidOp, or_assoc]] <;>
    split_ifs <;> simp <;> omega

/-! ## Appending -/

/-- How the device treats one append: the length write and the payload write
each fail after the given number of bytes if that is fewer than they write,
and `Sync` fails or not. -/
structure Device where
  lengthFault : Option Nat
  payloadFault : Option Nat
  syncFails : Bool
deriving DecidableEq, Repr

/-- The device that never fails. -/
def Device.reliable : Device := ⟨none, none, false⟩

/-- `writeFull`: `data` goes to the end of the file, unless the device fails
after `k < data.length` bytes, which stay written. -/
def writeFull (fault : Option Nat) (data file : List UInt8) : Bool × List UInt8 :=
  match fault with
  | some k => if k < data.length then (false, file ++ data.take k) else (true, file ++ data)
  | none => (true, file ++ data)

/-- `appendWAL`: the error, if any, and the file afterwards.  (`json.Marshal`
cannot fail on a `walCommand`, so its error branch is absent.) -/
def appendWAL (dev : Device) (cmd : WalCommand) (file : List UInt8) :
    Option WalError × List UInt8 :=
  if !isValidOp cmd.op then (some (.unknownOp cmd.op), file)
  else if (marshal cmd).length > maxWALFrameSize then
    (some (.payloadTooLarge (marshal cmd).length), file)
  else
    match writeFull dev.lengthFault (putUint32 (UInt32.ofNat (marshal cmd).length)) file with
    | (false, file') => (some .writeLength, file')
    | (true, file') =>
      match writeFull dev.payloadFault (marshal cmd) file' with
      | (false, file'') => (some .writePayload, file'')
      | (true, file'') => if dev.syncFails then (some .sync, file'') else (none, file'')

theorem writeFull_cases (fault : Option Nat) (data file : List UInt8) :
    (∃ k < data.length, writeFull fault data file = (false, file ++ data.take k)) ∨
      writeFull fault data file = (true, file ++ data) := by
  unfold writeFull
  split
  · split_ifs with h
    · exact .inl ⟨_, h, rfl⟩
    · exact .inr rfl
  · exact .inr rfl

/-- Everything `appendWAL` can do: refuse the command and leave the file alone,
fail a write after a strict prefix of the frame, or write the whole frame and
report what `Sync` says. -/
theorem appendWAL_cases (dev : Device) (cmd : WalCommand) (file : List UInt8) :
    (¬ Fits cmd ∧ (appendWAL dev cmd file).1.isSome ∧ (appendWAL dev cmd file).2 = file) ∨
    (Fits cmd ∧ ∃ k < (frame cmd).length, appendWAL dev cmd file =
      (some (if k < 4 then .writeLength else .writePayload), file ++ (frame cmd).take k)) ∨
    (Fits cmd ∧
      appendWAL dev cmd file = (if dev.syncFails then some .sync else none, file ++ frame cmd)) := by
  by_cases hc : Fits cmd
  · rw [appendWAL, if_neg (by simp [hc.1]), if_neg (not_lt.2 hc.2)]
    right
    rcases writeFull_cases dev.lengthFault (putUint32 (UInt32.ofNat (marshal cmd).length)) file
      with ⟨k, hk, h1⟩ | h1 <;> rw [h1] <;> dsimp only
    · rw [putUint32_length] at hk
      refine .inl ⟨hc, k, by simp; omega, ?_⟩
      rw [if_pos hk, frame_take_header cmd hk.le]
    rcases writeFull_cases dev.payloadFault (marshal cmd) _ with ⟨k, hk, h2⟩ | h2 <;> rw [h2] <;>
      dsimp only
    · refine .inl ⟨hc, 4 + k, by simp; omega, ?_⟩
      rw [if_neg (by omega), frame_take_payload, List.append_assoc]
    · refine .inr ⟨hc, ?_⟩
      rw [frame, List.append_assoc]
      split_ifs <;> rfl
  · refine .inl ⟨hc, ?_⟩
    simp only [Fits, not_and, not_le] at hc
    unfold appendWAL
    by_cases hv : isValidOp cmd.op
    · simp [hv, hc hv]
    · simp [hv]

/-- An append that reports no error wrote exactly the command's frame. -/
theorem appendWAL_none {dev : Device} {cmd : WalCommand} {file : List UInt8}
    (h : (appendWAL dev cmd file).1 = none) :
    Fits cmd ∧ (appendWAL dev cmd file).2 = file ++ frame cmd := by
  rcases appendWAL_cases dev cmd file with ⟨-, hs, -⟩ | ⟨-, k, -, he⟩ | ⟨hc, he⟩
  · simp [h] at hs
  · simp [he] at h
  · exact ⟨hc, by rw [he]⟩

/-- On a device that does not fail, every command within the checks is
appended. -/
theorem appendWAL_reliable {cmd : WalCommand} (hc : Fits cmd) (file : List UInt8) :
    appendWAL .reliable cmd file = (none, file ++ frame cmd) := by
  rw [appendWAL, if_neg (by simp [hc.1]), if_neg (not_lt.2 hc.2)]
  simp [Device.reliable, writeFull, frame]

/-! ## The loop of `writeFull`

`writeFull` calls `Write` until the data is gone, on what the previous calls
left; it stops at the first error, and with `io.ErrShortWrite` at a call that
wrote nothing.  The fault model above is exact for it: over every writer the
loop ends as `writeFull` does at some fault, and every fault is what some
writer does (`writeFull_fault_exact`). -/

/-- An `io.Writer` as the answers to its `Write` calls: the `i`-th call,
offered `p`, writes the first `n` bytes of `p` and fails or not.  `n ≤ len(p)`
is the contract of `io.Writer`; a call that fails wrote fewer bytes than
offered, as `*os.File` does, whose `write(2)` either writes or fails. -/
structure Writer where
  call : Nat → List UInt8 → Nat × Bool
  le_length : ∀ i p, (call i p).1 ≤ p.length
  lt_of_fails : ∀ i p, (call i p).2 = true → (call i p).1 < p.length

/-- `writeFull(w, data)` from the `i`-th call of `w` on: whether it returned
`nil`, and the file afterwards. -/
def writeFullLoop (w : Writer) (i : Nat) (data file : List UInt8) : Bool × List UInt8 :=
  if h : data = [] then (true, file)
  else if (w.call i data).2 then (false, file ++ data.take (w.call i data).1)
  else if hn : (w.call i data).1 = 0 then (false, file)
  else writeFullLoop w (i + 1) (data.drop (w.call i data).1) (file ++ data.take (w.call i data).1)
termination_by data.length
decreasing_by
  have := List.length_pos.2 h
  simp only [List.length_drop]
  omega

/-- The loop writes all of the data, or a strict prefix of it and fails. -/
theorem writeFullLoop_cases (w : Writer) (i : Nat) (data file : List UInt8) :
    (∃ k < data.length, writeFullLoop w i data file = (false, file ++ data.take k)) ∨
      writeFullLoop w i data file = (true, file ++ data) := by
  induction i, data, file using writeFullLoop.induct w with
  | case1 i file => rw [writeFullLoop]; simp
  | case2 i data file h hf =>
      rw [writeFullLoop, dif_neg h, if_pos hf]
      exact .inl ⟨_, w.lt_of_fails i data hf, rfl⟩
  | case3 i data file h hf hn =>
      rw [writeFullLoop, dif_neg h, if_neg hf, dif_pos hn]
      exact .inl ⟨0, List.length_pos.2 h, by simp⟩
  | case4 i data file h hf hn ih =>
      rw [writeFullLoop, dif_neg h, if_neg hf, dif_neg hn]
      rcases ih with ⟨k, hk, he⟩ | he <;> rw [he, List.append_assoc]
      · simp only [List.length_drop] at hk
        exact .inl ⟨(w.call i data).1 + k, by omega, by rw [List.take_add]⟩
      · rw [List.take_append_drop]
        exact .inr rfl

/-- The writer that writes all it is offered, unless offered more than `k`
bytes: then it writes `k` of them and fails. -/
def Writer.failAfter (k : Nat) : Writer where
  call _ p := if k < p.length then (k, true) else (p.length, false)
  le_length _ p := by dsimp only; split <;> simp; omega
  lt_of_fails _ p := by dsimp only; split <;> simp_all

theorem writeFullLoop_failAfter (k i : Nat) (data file : List UInt8) :
    writeFullLoop (.failAfter k) i data file = writeFull (some k) data file := by
  have hc : (Writer.failAfter k).call i data =
      if k < data.length then (k, true) else (data.length, false) := rfl
  rw [writeFullLoop, writeFull]
  by_cases h : data = []
  · subst h
    simp
  · rw [dif_neg h, hc]
    by_cases hk : k < data.length
    · simp [hk]
    · have hn : data.length ≠ 0 := by simpa using h
      simp only [hk, if_false, dif_neg hn, Bool.false_eq_true]
      rw [writeFullLoop, dif_pos (List.drop_eq_nil_of_le le_rfl), List.take_length]

/-- The fault model of `writeFull` is exact for its loop over a writer. -/
theorem writeFull_fault_exact (data file : List UInt8) :
    (∀ (w : Writer) (i : Nat), ∃ fault, writeFullLoop w i data file = writeFull fault data file) ∧
    (∀ fault, ∃ w : Writer, writeFullLoop w 0 data file = writeFull fault data file) := by
  refine ⟨fun w i => ?_, fun fault => ?_⟩
  · rcases writeFullLoop_cases w i data file with ⟨k, hk, he⟩ | he
    · exact ⟨some k, by rw [he, writeFull, if_pos hk]⟩
    · exact ⟨none, he⟩
  · cases fault with
    | some k => exact ⟨.failAfter k, writeFullLoop_failAfter k 0 data file⟩
    | none =>
        refine ⟨.failAfter data.length, ?_⟩
        rw [writeFullLoop_failAfter, writeFull, if_neg (lt_irrefl _)]
        rfl

end KVStore.File
