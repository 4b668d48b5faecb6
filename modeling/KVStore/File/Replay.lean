/-
# `KVStore.File.Replay` — the files `replayWAL` reads, and the ones it refuses

`replayWAL` reads whatever bytes the log file holds, not only what
`appendWAL` wrote there.  This module says, for every file, what the replay
does with it, as a grammar of frames:

* `Accepts file cs` — whole frames, each a 4-byte length within the bound and
  a payload that `json.Unmarshal` decodes to a command with a valid op, then a
  tail the replay ignores (`TornTail`): fewer bytes than a length, or a length
  within the bound followed by some, but not all, of its payload;
* `Rejects file e` — whole frames as above, then the first frame the replay
  refuses, with the error it reports.

`replayFrames_ok_iff` and `replayFrames_error_iff` say that these are exactly
the outcomes of the replay loop, over any accumulator; `newKVServer_ok_iff`
and `newKVServer_error_iff` are the two for the recovery of the server.  The
replay is a function, so every file is accepted or refused.

The grammar shows two edges of the code.  A length header with no byte after
it is refused (`Rejects.noPayload`), although the comment beside the check
calls a trailing partial frame harmless.  A header announcing 0 bytes is a
frame whose payload is empty, which `json.Unmarshal` refuses
(`Rejects.decode`).
-/
import KVStore.File.Server

namespace KVStore.File

open KVStore.Json

/-! ## Headers -/

theorem ofNat_toNat_uint32 (v : UInt32) : UInt32.ofNat v.toNat = v :=
  UInt32.toNat.inj (UInt32.toNat_ofNat_of_lt v.toNat_lt_size)

/-- Any four bytes are the header of the length they decode to. -/
theorem putUint32_uint32 {h : List UInt8} (hl : h.length = 4) : putUint32 (uint32 h) = h := by
  match h, hl with
  | [a, b, c, d], _ =>
      have ha : a.toNat < 256 := a.toNat_lt_size
      have hb : b.toNat < 256 := b.toNat_lt_size
      have hc : c.toNat < 256 := c.toNat_lt_size
      have hd : d.toNat < 256 := d.toNat_lt_size
      have hlt : a.toNat * 0x1000000 + b.toNat * 0x10000 + c.toNat * 0x100 + d.toNat <
          UInt32.size := by
        show _ < 0x100000000
        omega
      have hv : (uint32 [a, b, c, d]).toNat =
          a.toNat * 0x1000000 + b.toNat * 0x10000 + c.toNat * 0x100 + d.toNat :=
        UInt32.toNat_ofNat_of_lt hlt
      have byte : ∀ (n : Nat) (x : UInt8), n % 256 = x.toNat → UInt8.ofNat n = x :=
        fun _ _ h => UInt8.toNat.inj h
      simp only [putUint32, hv, List.cons.injEq, and_true]
      exact ⟨byte _ _ (by omega), byte _ _ (by omega), byte _ _ (by omega), byte _ _ (by omega)⟩

theorem readFull_eof {n : Nat} {file : List UInt8} (h : readFullWithEOFAsBoundary n file = .eof) :
    file = [] ∧ 0 < n := by
  unfold readFullWithEOFAsBoundary at h
  split_ifs at h with h1 h2
  exact ⟨h2, by simp only [h2, List.length_nil] at h1; omega⟩

theorem readFull_unexpectedEOF {n : Nat} {file : List UInt8}
    (h : readFullWithEOFAsBoundary n file = .unexpectedEOF) : file ≠ [] ∧ file.length < n := by
  unfold readFullWithEOFAsBoundary at h
  split_ifs at h with h1 h2
  exact ⟨h2, by omega⟩

/-- What the replay read as a length is a header, in the file. -/
theorem file_eq_header {file lenBuf rest : List UInt8}
    (h : readFullWithEOFAsBoundary 4 file = .ok lenBuf rest) :
    file = putUint32 (UInt32.ofNat (uint32 lenBuf).toNat) ++ rest ∧ lenBuf = file.take 4 := by
  obtain ⟨rfl, rfl, h4⟩ := readFull_ok h
  rw [ofNat_toNat_uint32, putUint32_uint32 (List.length_take_of_le h4), List.take_append_drop]
  exact ⟨rfl, rfl⟩

/-- What the replay read as a length and a payload is a frame of that
payload, in the file. -/
theorem file_eq_frame {file lenBuf rest payload rest' : List UInt8}
    (h1 : readFullWithEOFAsBoundary 4 file = .ok lenBuf rest)
    (h2 : readFullWithEOFAsBoundary (uint32 lenBuf).toNat rest = .ok payload rest') :
    file = putUint32 (UInt32.ofNat payload.length) ++ payload ++ rest' ∧
      payload.length = (uint32 lenBuf).toNat := by
  obtain ⟨hf, -⟩ := file_eq_header h1
  obtain ⟨rfl, rfl, hn⟩ := readFull_ok h2
  rw [List.length_take_of_le hn, List.append_assoc, List.take_append_drop]
  exact ⟨hf, rfl⟩

/-! ## The grammar -/

/-- What `replayWAL` ignores at the end of a file: fewer bytes than a length
header, or a header within the bound followed by some, but not all, of the
payload it announces. -/
def TornTail (tail : List UInt8) : Prop :=
  tail.length < 4 ∨
    ((uint32 (tail.take 4)).toNat ≤ maxWALFrameSize ∧ 4 < tail.length ∧
      tail.length < 4 + (uint32 (tail.take 4)).toNat)

instance (tail : List UInt8) : Decidable (TornTail tail) :=
  inferInstanceAs (Decidable (_ ∨ _))

/-- The files `replayWAL` reads to their end, with the commands it applies:
whole frames, each a payload within the bound that decodes to a command with a
valid op, then a torn tail. -/
inductive Accepts : List UInt8 → List WalCommand → Prop
  | tail {rest : List UInt8} : TornTail rest → Accepts rest []
  | frame {p rest : List UInt8} {cmd : WalCommand} {cs : List WalCommand} :
      p.length ≤ maxWALFrameSize → unmarshal p = some cmd → isValidOp cmd.op = true →
      Accepts rest cs → Accepts (putUint32 (UInt32.ofNat p.length) ++ p ++ rest) (cmd :: cs)

/-- The files on which `replayWAL` fails, with the error it reports: whole
frames as in `Accepts`, then the first frame it refuses — a header over the
bound, a header within it and nothing after, a payload that does not decode,
or a command with an unknown op. -/
inductive Rejects : List UInt8 → WalError → Prop
  | tooLarge {v : UInt32} {rest : List UInt8} : maxWALFrameSize < v.toNat →
      Rejects (putUint32 v ++ rest) (.frameTooLarge v.toNat)
  | noPayload {n : Nat} : 0 < n → n ≤ maxWALFrameSize →
      Rejects (putUint32 (UInt32.ofNat n)) .readPayload
  | decode {p rest : List UInt8} : p.length ≤ maxWALFrameSize → unmarshal p = none →
      Rejects (putUint32 (UInt32.ofNat p.length) ++ p ++ rest) .decode
  | unknownOp {p rest : List UInt8} {cmd : WalCommand} : p.length ≤ maxWALFrameSize →
      unmarshal p = some cmd → isValidOp cmd.op = false →
      Rejects (putUint32 (UInt32.ofNat p.length) ++ p ++ rest) (.unknownOp cmd.op)
  | frame {p rest : List UInt8} {cmd : WalCommand} {e : WalError} :
      p.length ≤ maxWALFrameSize → unmarshal p = some cmd → isValidOp cmd.op = true →
      Rejects rest e → Rejects (putUint32 (UInt32.ofNat p.length) ++ p ++ rest) e

/-! ## The replay loop against the grammar -/

section Loop

variable {σ : Type} (apply : σ → WalCommand → σ)

/-- A torn tail ends the replay without error. -/
theorem replayFrames_torn (acc : σ) {tail : List UInt8} (ht : TornTail tail) :
    replayFrames apply acc tail = .ok acc := by
  rcases ht with ht | ⟨hn, h4, hlt⟩
  · exact replayFrames_short apply acc ht
  · have hf : tail = putUint32 (UInt32.ofNat (uint32 (tail.take 4)).toNat) ++ tail.drop 4 := by
      rw [ofNat_toNat_uint32, putUint32_uint32 (List.length_take_of_le h4.le),
        List.take_append_drop]
    rw [hf, replayFrames_header apply acc hn, if_neg (by simp; omega), if_neg (by simp; omega)]

/-- One whole frame of a payload within the bound that decodes to `cmd`. -/
theorem replayFrames_payload (acc : σ) {p : List UInt8} (hp : p.length ≤ maxWALFrameSize)
    (rest : List UInt8) :
    replayFrames apply acc (putUint32 (UInt32.ofNat p.length) ++ p ++ rest) =
      match unmarshal p with
      | none => .error .decode
      | some cmd =>
        if isValidOp cmd.op then replayFrames apply (apply acc cmd) rest
        else .error (.unknownOp cmd.op) := by
  have h := replayFrames_header apply acc hp (p ++ rest)
  rw [if_pos (by simp), List.take_left' rfl, List.drop_left' rfl] at h
  rw [List.append_assoc]
  exact h

theorem replayFrames_of_accepts {file : List UInt8} {cs : List WalCommand} (h : Accepts file cs)
    (acc : σ) : replayFrames apply acc file = .ok (cs.foldl apply acc) := by
  induction h generalizing acc with
  | tail ht => exact replayFrames_torn apply acc ht
  | frame hp hd hv _ ih =>
      rw [replayFrames_payload apply acc hp, hd]
      exact (if_pos hv).trans (ih _)

theorem accepts_of_replayFrames {acc r : σ} {file : List UInt8}
    (h : replayFrames apply acc file = .ok r) : ∃ cs, Accepts file cs ∧ r = cs.foldl apply acc := by
  induction acc, file using replayFrames.induct apply generalizing r with
  | case1 acc file h1 =>
      rw [replayFrames_eq, h1] at h
      cases h
      exact ⟨[], .tail (.inl (by simp [(readFull_eof h1).1])), rfl⟩
  | case2 acc file h1 =>
      rw [replayFrames_eq, h1] at h
      cases h
      exact ⟨[], .tail (.inl (readFull_unexpectedEOF h1).2), rfl⟩
  | case3 acc file lenBuf rest h1 hn =>
      rw [replayFrames_eq, h1] at h
      simp only [if_pos hn, reduceCtorEq] at h
  | case4 acc file lenBuf rest h1 hn h2 =>
      rw [replayFrames_eq, h1] at h
      simp only [if_neg hn, h2, Except.ok.injEq] at h
      obtain ⟨hne, hlt⟩ := readFull_unexpectedEOF h2
      obtain ⟨rfl, rfl, h4⟩ := readFull_ok h1
      refine ⟨[], .tail (.inr ⟨by omega, ?_, ?_⟩), h.symm⟩
      · simp only [List.length_drop, ne_eq, ← List.length_eq_zero] at hne hlt
        omega
      · simp only [List.length_drop] at hlt
        omega
  | case5 acc file lenBuf rest h1 hn h2 =>
      rw [replayFrames_eq, h1] at h
      simp only [if_neg hn, h2, reduceCtorEq] at h
  | case6 acc file lenBuf rest h1 hn payload rest' h2 hd =>
      rw [replayFrames_eq, h1] at h
      simp only [if_neg hn, h2, hd, reduceCtorEq] at h
  | case7 acc file lenBuf rest h1 hn payload rest' h2 cmd hd hv ih =>
      rw [replayFrames_eq, h1] at h
      simp only [if_neg hn, h2, hd, hv, if_true] at h
      obtain ⟨cs, hcs, rfl⟩ := ih h
      obtain ⟨hf, hl⟩ := file_eq_frame h1 h2
      exact ⟨cmd :: cs, hf ▸ .frame (by omega) hd hv hcs, rfl⟩
  | case8 acc file lenBuf rest h1 hn payload rest' h2 cmd hd hv =>
      rw [replayFrames_eq, h1] at h
      simp only [if_neg hn, h2, hd, hv, if_false, reduceCtorEq] at h

theorem replayFrames_ok_iff (acc r : σ) (file : List UInt8) :
    replayFrames apply acc file = .ok r ↔ ∃ cs, Accepts file cs ∧ r = cs.foldl apply acc :=
  ⟨accepts_of_replayFrames apply, fun ⟨_, hcs, hr⟩ => hr ▸ replayFrames_of_accepts apply hcs acc⟩

theorem replayFrames_of_rejects {file : List UInt8} {e : WalError} (h : Rejects file e) (acc : σ) :
    replayFrames apply acc file = .error e := by
  induction h generalizing acc with
  | tooLarge hv =>
      rw [replayFrames_eq, readFull_append (putUint32_length _)]
      dsimp only
      rw [uint32_putUint32, if_pos hv]
  | noPayload hn hb =>
      rw [← List.append_nil (putUint32 _), replayFrames_header apply acc hb, if_neg (by simp; omega),
        if_pos rfl]
  | decode hp hd => rw [replayFrames_payload apply acc hp, hd]
  | unknownOp hp hd hv =>
      rw [replayFrames_payload apply acc hp, hd]
      exact if_neg (by simp [hv])
  | frame hp hd hv _ ih =>
      rw [replayFrames_payload apply acc hp, hd]
      exact (if_pos hv).trans (ih _)

theorem rejects_of_replayFrames {acc : σ} {file : List UInt8} {e : WalError}
    (h : replayFrames apply acc file = .error e) : Rejects file e := by
  induction acc, file using replayFrames.induct apply with
  | case1 acc file h1 =>
      rw [replayFrames_eq, h1] at h
      cases h
  | case2 acc file h1 =>
      rw [replayFrames_eq, h1] at h
      cases h
  | case3 acc file lenBuf rest h1 hn =>
      rw [replayFrames_eq, h1] at h
      simp only [if_pos hn, Except.error.injEq] at h
      subst h
      obtain ⟨hf, -⟩ := file_eq_header h1
      rw [ofNat_toNat_uint32] at hf
      exact hf ▸ .tooLarge hn
  | case4 acc file lenBuf rest h1 hn h2 =>
      rw [replayFrames_eq, h1] at h
      simp only [if_neg hn, h2, reduceCtorEq] at h
  | case5 acc file lenBuf rest h1 hn h2 =>
      rw [replayFrames_eq, h1] at h
      simp only [if_neg hn, h2, Except.error.injEq] at h
      subst h
      obtain ⟨rfl, hpos⟩ := readFull_eof h2
      obtain ⟨hf, -⟩ := file_eq_header h1
      rw [List.append_nil] at hf
      exact hf ▸ .noPayload hpos (by omega)
  | case6 acc file lenBuf rest h1 hn payload rest' h2 hd =>
      rw [replayFrames_eq, h1] at h
      simp only [if_neg hn, h2, hd, Except.error.injEq] at h
      subst h
      obtain ⟨hf, hl⟩ := file_eq_frame h1 h2
      exact hf ▸ .decode (by omega) hd
  | case7 acc file lenBuf rest h1 hn payload rest' h2 cmd hd hv ih =>
      rw [replayFrames_eq, h1] at h
      simp only [if_neg hn, h2, hd, hv, if_true] at h
      obtain ⟨hf, hl⟩ := file_eq_frame h1 h2
      exact hf ▸ .frame (by omega) hd hv (ih h)
  | case8 acc file lenBuf rest h1 hn payload rest' h2 cmd hd hv =>
      rw [replayFrames_eq, h1] at h
      simp only [if_neg hn, h2, hd, hv, if_false, Except.error.injEq, Bool.false_eq_true] at h
      subst h
      obtain ⟨hf, hl⟩ := file_eq_frame h1 h2
      exact hf ▸ .unknownOp (by omega) hd (by simpa using hv)

theorem replayFrames_error_iff (acc : σ) (file : List UInt8) (e : WalError) :
    replayFrames apply acc file = .error e ↔ Rejects file e :=
  ⟨rejects_of_replayFrames apply, fun h => replayFrames_of_rejects apply h acc⟩

end Loop

/-! ## Recovery -/

/-- What recovery accepts: on any file, `newKVServer` succeeds exactly when
the file is whole frames, each a length within the bound and a payload that
decodes to a command with a valid op, followed by a torn tail; the server it
returns holds those commands applied, in order, to an empty tree. -/
theorem newKVServer_ok_iff (file : List UInt8) (s : KVServer) :
    newKVServer file = .ok s ↔ ∃ cs, Accepts file cs ∧ s = ⟨applyAll BTree.empty cs, file⟩ := by
  show Except.map _ (replayFrames applyCommand BTree.empty file) = _ ↔ _
  constructor
  · intro h
    obtain ⟨t, ht, rfl⟩ : ∃ t, replayFrames applyCommand BTree.empty file = .ok t ∧
        (⟨t, file⟩ : KVServer) = s := by
      cases hr : replayFrames applyCommand BTree.empty file <;> simp_all [Except.map]
    obtain ⟨cs, hcs, rfl⟩ := (replayFrames_ok_iff applyCommand _ t file).1 ht
    exact ⟨cs, hcs, rfl⟩
  · rintro ⟨cs, hcs, rfl⟩
    rw [(replayFrames_ok_iff applyCommand _ _ file).2 ⟨cs, hcs, rfl⟩]
    rfl

/-- What recovery refuses: on any file, `newKVServer` fails with `e` exactly
when the file is whole frames as `newKVServer_ok_iff` has them, then a header
announcing more than the bound (`frameTooLarge`), a header within it with no
byte after (`readPayload`), a payload that does not decode (`decode`), or a
command with an unknown op (`unknownOp`, with that op). -/
theorem newKVServer_error_iff (file : List UInt8) (e : WalError) :
    newKVServer file = .error e ↔ Rejects file e := by
  rw [← replayFrames_error_iff applyCommand BTree.empty file e]
  show Except.map _ (replayFrames applyCommand BTree.empty file) = _ ↔ _
  cases replayFrames applyCommand BTree.empty file <;> simp [Except.map]

end KVStore.File
