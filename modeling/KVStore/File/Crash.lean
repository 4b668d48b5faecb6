/-
# `KVStore.File.Crash` — torn tails, and appends that fail

A crash during `appendWAL`, or a write that fails part way, leaves a strict
prefix of a frame at the end of the log.  `replayWAL` ignores such a tail when
the cut falls inside the length header or inside a payload that has begun, but
not when it falls exactly after the header: the payload read then sees no byte
at all, `readFullWithEOFAsBoundary` reports `io.EOF` rather than
`io.ErrUnexpectedEOF`, and the replay fails (`replayWAL_torn`).

`newKVServer` seeks to the physical end of the file after a replay that
stopped at a torn tail, so the frames appended afterwards follow the torn
bytes; a later replay reads them out of alignment (`replayWAL_torn_append`),
and an acknowledged mutation can be lost (`torn_tail_loses_put`).  Since
frames begin with a NUL byte, which no JSON holds, every frame appended after
a write torn inside a payload is lost: the replay either reads them all as the
torn payload's missing bytes, or fails (`replayWAL_torn_payload_frames`).

Nothing is rolled back when an append fails.  A refused command leaves the log
alone, a failed write leaves a strict prefix of the frame, and a failed `Sync`
leaves the whole frame, so that the next replay applies a mutation the client
was told had failed (`handle_error_log`, `sync_failure_replays_put`).

Over whole runs in which writes succeed and only `Sync` may fail, the log is
exactly what a ledger of the logged commands says (`Tracks`): every request
whose command passed the checks is logged, acknowledged or not; the tree holds
the acknowledged ones, a sublist; and a restart replays them all
(`syncRun_recovers`).
-/
import KVStore.File.Server

namespace KVStore.File

open KVStore.Json

/-! ## Torn tails -/

/-- Whole frames and a frame cut after `k` bytes: the frames are applied, and
the cut frame is ignored unless the cut is exactly after its length header. -/
theorem replayWAL_torn (t : BTree) {cs : List WalCommand} (hcs : ∀ c ∈ cs, Fits c)
    {c : WalCommand} (hc : Fits c) {k : Nat} (hk : k < (frame c).length) :
    replayWAL t (frames cs ++ (frame c).take k) =
      if k = 4 then .error .readPayload else .ok (applyAll t cs) := by
  rw [replayWAL, replayFrames_frames _ _ hcs, replayFrames_take_frame _ _ hc hk]
  rfl

/-- A header alone at the end of the log fails the replay. -/
theorem replayWAL_header_only :
    replayWAL BTree.empty ((frame ⟨"put", "a", "1"⟩).take 4) = .error .readPayload :=
  (@replayWAL_torn BTree.empty [] (by simp) _ (by decide) 4 (by decide)).trans (if_pos rfl)

/-- Bytes appended after a torn tail whose payload has begun are read as the
rest of that payload: as long as they are fewer than it lacks, the replay ends
there, and whatever they hold is not applied. -/
theorem replayWAL_torn_append (t : BTree) {cs : List WalCommand} (hcs : ∀ c ∈ cs, Fits c)
    {c : WalCommand} (hc : Fits c) {k : Nat} (hk : 4 < k) (rest : List UInt8)
    (hr : k + rest.length < (frame c).length) :
    replayWAL t (frames cs ++ (frame c).take k ++ rest) = .ok (applyAll t cs) := by
  obtain ⟨j, rfl⟩ := Nat.exists_eq_add_of_le hk.le
  rw [frame_length] at hr
  rw [replayWAL, List.append_assoc, replayFrames_frames _ _ hcs, frame_take_payload,
    List.append_assoc, replayFrames_header _ _ hc.2, if_neg (by simp; omega),
    if_neg (by simp [marshal_ne_nil]; exact fun h => absurd h (by omega))]
  rfl

/-- Whole frames appended after a write torn inside a payload are all lost:
while they fall short of what the torn payload lacks, the replay reads them as
its missing bytes and stops as at a torn tail; once they make it up, the torn
payload ends with the first byte of a length header, a NUL, which no JSON
holds, and the replay fails. -/
theorem replayWAL_torn_payload_frames (t : BTree) {cs : List WalCommand}
    (hcs : ∀ c ∈ cs, Fits c) {c : WalCommand} (hc : Fits c) {j : Nat}
    (hj : 0 < j ∧ j < (marshal c).length) {ds : List WalCommand} (hds : ∀ d ∈ ds, Fits d) :
    replayWAL t (frames cs ++ (frame c).take (4 + j) ++ frames ds) =
      if (marshal c).length ≤ j + (frames ds).length then .error .decode
      else .ok (applyAll t cs) := by
  have hlen : ((marshal c).take j).length = j := List.length_take_of_le hj.2.le
  rw [replayWAL, List.append_assoc, replayFrames_frames _ _ hcs, frame_take_payload,
    List.append_assoc, replayFrames_header _ _ hc.2, List.length_append, hlen]
  split_ifs with h h'
  · obtain ⟨d, ds, rfl⟩ : ∃ d ds', ds = d :: ds' := by
      cases ds with
      | nil => simp only [frames, List.flatMap_nil, List.length_nil] at h; omega
      | cons d ds' => exact ⟨d, ds', rfl⟩
    obtain ⟨k, hk⟩ : ∃ k, (marshal c).length - j = k + 1 := ⟨_, (Nat.succ_pred_eq_of_pos
      (by omega)).symm⟩
    have hnul : (0 : UInt8) ∈ ((marshal c).take j ++ frames (d :: ds)).take (marshal c).length := by
      rw [List.take_append_eq_append_take, hlen, hk, frames, List.flatMap_cons,
        frame_eq_cons (hds d (.head _))]
      simp
    rw [unmarshal_of_nul hnul]
  · simp only [List.append_eq_nil, List.take_eq_nil_iff, marshal_ne_nil, or_false] at h'
    omega
  · rfl

theorem replayWAL_torn_payload_frames_two_puts :
    (0 < 1 ∧ 1 < (marshal ⟨"put", "k", "0123456789"⟩).length) ∧
    replayWAL BTree.empty (frames [] ++ (frame ⟨"put", "k", "0123456789"⟩).take (4 + 1) ++
        frames [⟨"put", "a", "1"⟩, ⟨"put", "b", "2"⟩]) =
      if (marshal ⟨"put", "k", "0123456789"⟩).length ≤
          1 + (frames [⟨"put", "a", "1"⟩, ⟨"put", "b", "2"⟩]).length
      then .error .decode else .ok (applyAll BTree.empty []) :=
  ⟨by decide, replayWAL_torn_payload_frames BTree.empty (by simp) (by decide) (by decide)
    (by decide)⟩

/-- After a torn tail, `newKVServer` succeeds and a `Put` is acknowledged, but
the next `newKVServer` does not see it: its frame was appended after the torn
bytes and is read as part of the torn payload. -/
theorem torn_tail_loses_put :
    ∃ s s' : KVServer,
      newKVServer ((frame ⟨"put", "k", "0123456789"⟩).take 5) = .ok s ∧
      s.handle .reliable (.put "a" "1") = (.ok (.put ⟨false⟩), s') ∧
      newKVServer s'.logFile = .ok ⟨BTree.empty, s'.logFile⟩ ∧
      (applyAll BTree.empty [⟨"put", "a", "1"⟩]).toMap "a" = some "1" := by
  refine ⟨⟨BTree.empty, (frame ⟨"put", "k", "0123456789"⟩).take 5⟩, _, ?_, rfl, ?_, rfl⟩
  · show Except.map _ (replayWAL BTree.empty
      (frames [] ++ (frame ⟨"put", "k", "0123456789"⟩).take 5)) = _
    rw [@replayWAL_torn BTree.empty [] (by simp) ⟨"put", "k", "0123456789"⟩ (by decide) 5
      (by decide)]
    rfl
  · show Except.map _ (replayWAL BTree.empty
      (frames [] ++ (frame ⟨"put", "k", "0123456789"⟩).take 5 ++ frame ⟨"put", "a", "1"⟩)) = _
    rw [@replayWAL_torn_append BTree.empty [] (by simp) ⟨"put", "k", "0123456789"⟩ (by decide) 5
      (by decide) _ (by decide)]
    rfl

/-! ## Failed appends -/

/-- What a refused mutation leaves behind on a consistent log: the tree is
untouched, and the log gains a prefix of the command's frame.  None of it when
the command fails the checks, and the log stays consistent; a strict prefix
when a write fails, which a replay now ignores unless the cut is exactly after
the header; the whole frame when `Sync` fails, and the log is then consistent
with the command applied. -/
theorem handle_error_log {cs : List WalCommand} {s : KVServer} {dev : Device} {r : Request}
    {e : WalError} (h : Consistent cs s) (hr : (s.handle dev r).1 = .error e) :
    ∃ cmd, commandOf r = some cmd ∧ (s.handle dev r).2.tree = s.tree ∧
      ((¬ Fits cmd ∧ Consistent cs (s.handle dev r).2) ∨
        (Fits cmd ∧ e ≠ .sync ∧ ∃ k < (frame cmd).length,
          (s.handle dev r).2.logFile = s.logFile ++ (frame cmd).take k ∧
          (k ≠ 4 → replayWAL BTree.empty (s.handle dev r).2.logFile = .ok s.tree)) ∨
        (Fits cmd ∧ e = .sync ∧
          Consistent (cs ++ [cmd]) ⟨applyCommand s.tree cmd, (s.handle dev r).2.logFile⟩)) := by
  obtain ⟨cmd, hcmd, hw, ht⟩ := KVServer.handle_error hr
  refine ⟨cmd, hcmd, ht, ?_⟩
  rcases appendWAL_cases dev cmd s.logFile with ⟨hc, -, hf⟩ | ⟨hc, k, hk, he⟩ | ⟨hc, he⟩
  · rw [hw] at hf
    exact .inl ⟨hc, hf.trans h.log_eq, h.fits, ht.trans h.tree_eq⟩
  · rw [hw, Prod.mk.injEq, Option.some.injEq] at he
    refine .inr (.inl ⟨hc, by split_ifs at he <;> simp [he.1], k, hk, he.2, fun hk4 => ?_⟩)
    rw [he.2, h.log_eq, replayWAL_torn _ h.fits hc hk, if_neg hk4, ← h.tree_eq]
  · rw [hw, Prod.mk.injEq] at he
    split_ifs at he with hs
    · cases he.1
      refine .inr (.inr ⟨hc, rfl, ?_, ?_, ?_⟩)
      · simp [he.2, h.log_eq, frames]
      · simpa [or_imp, forall_and] using ⟨h.fits, hc⟩
      · simp [h.tree_eq]
    · cases he.1

/-- A `Put` whose `Sync` fails on an empty log. -/
theorem handle_error_log_sync :
    let s : KVServer := ⟨BTree.empty, []⟩
    let dev : Device := ⟨none, none, true⟩
    Consistent [] s ∧ (s.handle dev (.put "a" "1")).1 = .error .sync ∧
      ∃ cmd, commandOf (.put "a" "1") = some cmd ∧ (s.handle dev (.put "a" "1")).2.tree = s.tree ∧
        ((¬ Fits cmd ∧ Consistent [] (s.handle dev (.put "a" "1")).2) ∨
          (Fits cmd ∧ WalError.sync ≠ .sync ∧ ∃ k < (frame cmd).length,
            (s.handle dev (.put "a" "1")).2.logFile = s.logFile ++ (frame cmd).take k ∧
            (k ≠ 4 → replayWAL BTree.empty (s.handle dev (.put "a" "1")).2.logFile = .ok s.tree)) ∨
          (Fits cmd ∧ WalError.sync = .sync ∧
            Consistent ([] ++ [cmd])
              ⟨applyCommand s.tree cmd, (s.handle dev (.put "a" "1")).2.logFile⟩)) :=
  ⟨consistent_nil, rfl, handle_error_log consistent_nil rfl⟩

/-- A `Put` whose `Sync` fails is reported as failed and leaves the tree
empty, yet the log it leaves replays to a tree that holds it. -/
theorem sync_failure_replays_put :
    let s : KVServer := ⟨BTree.empty, []⟩
    let dev : Device := ⟨none, none, true⟩
    replayWAL BTree.empty s.logFile = .ok s.tree ∧
      (s.handle dev (.put "a" "1")).1 = .error .sync ∧
      (s.handle dev (.put "a" "1")).2.tree = BTree.empty ∧
      (replayWAL BTree.empty (s.handle dev (.put "a" "1")).2.logFile).map (·.toMap "a") =
        .ok (some "1") := by
  refine ⟨replayFrames_short _ _ (by simp), rfl, rfl, ?_⟩
  show Except.map _ (replayWAL BTree.empty (frames [⟨"put", "a", "1"⟩])) = _
  rw [replayWAL_frames _ (by decide)]
  rfl

/-! ## Runs whose `Sync` can fail -/

/-- On a device whose writes complete, `appendWAL` refuses a command that
fails its checks and leaves the file alone, or writes the whole frame and
reports what `Sync` says. -/
theorem appendWAL_complete {dev : Device} (hl : dev.lengthFault = none)
    (hp : dev.payloadFault = none) (cmd : WalCommand) (file : List UInt8) :
    (¬ Fits cmd ∧ (appendWAL dev cmd file).1 ≠ some .sync ∧ (appendWAL dev cmd file).2 = file) ∨
    (Fits cmd ∧
      appendWAL dev cmd file = (if dev.syncFails then some .sync else none, file ++ frame cmd)) := by
  by_cases hc : Fits cmd
  · refine .inr ⟨hc, ?_⟩
    rw [appendWAL, if_neg (by simp [hc.1]), if_neg (not_lt.2 hc.2)]
    cases dev.syncFails <;> simp [writeFull, hl, hp, frame]
  · refine .inl ⟨hc, ?_⟩
    simp only [Fits, not_and, not_le] at hc
    unfold appendWAL
    by_cases hv : isValidOp cmd.op
    · simp [hv, hc hv]
    · simp [hv]

/-- What a run of the file-backed server has done, at the level of the
commands: those in the log, and those the live tree has applied. -/
structure Ledger where
  logged : List WalCommand
  applied : List WalCommand

namespace Ledger

/-- A request whose client saw `res`: an acknowledged command is logged and
applied, one whose `Sync` was reported failed is logged and not applied, any
other request changes nothing. -/
def record (L : Ledger) (r : Request) : Except WalError Reply → Ledger
  | .ok _ => ⟨L.logged ++ (commandOf r).toList, L.applied ++ (commandOf r).toList⟩
  | .error .sync => ⟨L.logged ++ (commandOf r).toList, L.applied⟩
  | .error _ => L

/-- A restart rebuilds the live tree from the log. -/
def restart (L : Ledger) : Ledger := ⟨L.logged, L.logged⟩

end Ledger

/-- The server agrees with the ledger: the log is the frames of the logged
commands, each one `appendWAL` accepts, and the tree is the applied commands
applied to an empty tree. -/
structure Tracks (L : Ledger) (s : KVServer) : Prop where
  log_eq : s.logFile = frames L.logged
  fits : ∀ c ∈ L.logged, Fits c
  tree_eq : s.tree = applyAll BTree.empty L.applied

theorem newKVServer_of_tracks {L : Ledger} {s : KVServer} (h : Tracks L s) :
    newKVServer s.logFile = .ok ⟨applyAll BTree.empty L.logged, s.logFile⟩ := by
  rw [newKVServer, h.log_eq, replayWAL_frames _ h.fits]
  rfl

theorem tracks_restart {L : Ledger} {s s' : KVServer} (h : Tracks L s)
    (hr : newKVServer s.logFile = .ok s') : Tracks L.restart s' := by
  rw [newKVServer_of_tracks h, Except.ok.injEq] at hr
  subst hr
  exact ⟨h.log_eq, h.fits, rfl⟩

/-- One request on a device whose writes complete keeps the server in step
with the ledger, whatever its outcome. -/
theorem tracks_handle {L : Ledger} {s : KVServer} {dev : Device} {r : Request} (h : Tracks L s)
    (hl : dev.lengthFault = none) (hp : dev.payloadFault = none) :
    Tracks (L.record r (s.handle dev r).1) (s.handle dev r).2 := by
  cases hres : (s.handle dev r).1 with
  | ok reply =>
      obtain ⟨-, hc, hs⟩ := KVServer.handle_ok hres
      rw [hs, Ledger.record]
      refine ⟨by simp [h.log_eq, frames], fun c hc' => ?_, by simp [h.tree_eq]⟩
      rcases List.mem_append.1 hc' with hm | hm
      exacts [h.fits c hm, hc c hm]
  | error e =>
      obtain ⟨cmd, hcmd, hw, ht⟩ := KVServer.handle_error hres
      rcases appendWAL_complete hl hp cmd s.logFile with ⟨-, hne, hf⟩ | ⟨hc, he⟩
      · rw [hw] at hne hf
        have hrec : L.record r (.error e) = L := by
          cases e <;> first | rfl | exact absurd rfl hne
        rw [hrec]
        exact ⟨hf.trans h.log_eq, h.fits, ht.trans h.tree_eq⟩
      · rw [hw] at he
        cases hs : dev.syncFails <;> simp only [hs, if_true, if_false, Prod.mk.injEq,
          reduceCtorEq, false_and, Option.some.injEq] at he
        obtain ⟨rfl, hf⟩ := he
        simp only [Ledger.record, hcmd, Option.toList_some]
        refine ⟨by simp [hf, h.log_eq, frames], fun c hc' => ?_, ht.trans h.tree_eq⟩
        rcases List.mem_append.1 hc' with hm | hm
        · exact h.fits c hm
        · rw [List.mem_singleton.1 hm]
          exact hc

/-- The runs of the file-backed server from an empty log on devices whose
writes complete, whatever their `Sync` does: every request, whatever its
outcome, and restarts.  The ledger is built from what the clients were told. -/
inductive SyncRun : Ledger → KVServer → Prop
  | init {s : KVServer} : newKVServer [] = .ok s → SyncRun ⟨[], []⟩ s
  | request {L : Ledger} {s : KVServer} {dev : Device} {r : Request} :
      SyncRun L s → dev.lengthFault = none → dev.payloadFault = none →
      SyncRun (L.record r (s.handle dev r).1) (s.handle dev r).2
  | restart {L : Ledger} {s s' : KVServer} :
      SyncRun L s → newKVServer s.logFile = .ok s' → SyncRun L.restart s'

theorem syncRun_tracks {L : Ledger} {s : KVServer} (h : SyncRun L s) : Tracks L s := by
  induction h with
  | init h0 =>
      rw [newKVServer_nil, Except.ok.injEq] at h0
      subst h0
      exact ⟨rfl, by simp, rfl⟩
  | request _ hl hp ih => exact tracks_handle ih hl hp
  | restart _ hr ih => exact tracks_restart ih hr

/-- What the live tree has applied is logged, in order: the tree never runs
ahead of the log. -/
theorem syncRun_applied_sublist {L : Ledger} {s : KVServer} (h : SyncRun L s) :
    L.applied.Sublist L.logged := by
  induction h with
  | init => exact List.Sublist.slnil
  | @request L s dev r _ _ _ ih =>
      cases (s.handle dev r).1 with
      | ok reply => exact ih.append (List.Sublist.refl _)
      | error e =>
          cases e
          case sync => exact ih.trans (List.sublist_append_left _ _)
          all_goals exact ih
  | restart => exact List.Sublist.refl _

/-- Durability when `Sync` can fail: over every run from an empty log on
devices whose writes complete, with requests of any outcome and restarts, the
log is exactly the frames of the commands whose clients were answered or told
that `Sync` failed, in order; the live tree is the commands acknowledged since
the last restart applied to what it recovered, and never holds a command the
log lacks; and a restart always succeeds and recovers every logged command —
every acknowledged one, and every one reported failed at `Sync`. -/
theorem syncRun_recovers {L : Ledger} {s : KVServer} (h : SyncRun L s) :
    s.logFile = frames L.logged ∧ s.tree = applyAll BTree.empty L.applied ∧
      L.applied.Sublist L.logged ∧
      newKVServer s.logFile = .ok ⟨applyAll BTree.empty L.logged, s.logFile⟩ :=
  have ht := syncRun_tracks h
  ⟨ht.log_eq, ht.tree_eq, syncRun_applied_sublist h, newKVServer_of_tracks ht⟩

/-- A `Put` whose `Sync` fails, then a restart: the restart recovers it. -/
theorem syncRun_recovers_sync_restart :
    let dev : Device := ⟨none, none, true⟩
    let s : KVServer := ((⟨BTree.empty, []⟩ : KVServer).handle dev (.put "a" "1")).2
    let L : Ledger := (Ledger.record ⟨[], []⟩ (.put "a" "1")
      ((⟨BTree.empty, []⟩ : KVServer).handle dev (.put "a" "1")).1).restart
    let s' : KVServer := ⟨applyAll BTree.empty L.logged, s.logFile⟩
    SyncRun L s' ∧ (s'.logFile = frames L.logged ∧ s'.tree = applyAll BTree.empty L.applied ∧
      L.applied.Sublist L.logged ∧
      newKVServer s'.logFile = .ok ⟨applyAll BTree.empty L.logged, s'.logFile⟩) :=
  have h1 : SyncRun ⟨[], []⟩ ⟨BTree.empty, []⟩ := .init newKVServer_nil
  have h2 := @SyncRun.request _ _ ⟨none, none, true⟩ (.put "a" "1") h1 rfl rfl
  have h3 := SyncRun.restart h2 (newKVServer_of_tracks (syncRun_tracks h2))
  ⟨h3, syncRun_recovers h3⟩

end KVStore.File
