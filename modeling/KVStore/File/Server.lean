/-
# `KVStore.File.Server` — the file-backed server, and what a restart rebuilds

The handlers of the file-backed server over the tree and the bytes of the log.
`Put`, `Swap` and `Delete` share one shape (`KVServer.mutate`): read the key,
`appendWAL` the command, and apply it to the tree only if the append reported
no error; they differ only in the command and in the reply they build from the
item they read.  `Get` and `Scan` read the tree and change nothing.

A run is a history of acknowledged requests and restarts from an empty log
(`Reach`); a restart is `newKVServer` on the same file.  Over every run the
log is exactly the frames of the acknowledged commands, and a restart rebuilds
the live server (`reach_durable`), from the step lemmas `consistent_handle`
and `consistent_restart`.  What a failed append leaves behind is the subject of
`KVStore.File.Crash`.
-/
import KVStore.File.Wal

namespace KVStore.File

/-- `kvServer` of the file-backed server: the tree, and the bytes of the log
file.  Writes go to the end of the file, where `newKVServer` seeks. -/
structure KVServer where
  tree : BTree
  logFile : List UInt8

/-- `newKVServer` on a file holding `file` (opened with `O_CREATE`, so a
missing file is an empty one): replay it into an empty tree. -/
def newKVServer (file : List UInt8) : Except WalError KVServer :=
  (replayWAL BTree.empty file).map fun t => ⟨t, file⟩

/-- The command a point request logs; `Get` logs none. -/
def commandOf : Request → Option WalCommand
  | .put k v => some ⟨"put", k, v⟩
  | .get _ => none
  | .swap k v => some ⟨"swap", k, v⟩
  | .delete k => some ⟨"delete", k, ""⟩

namespace KVServer

/-- What `Put`, `Swap` and `Delete` share: `Get` the key, `appendWAL` the
command, and on success `applyCommand` it and hand back the item read. -/
def mutate (s : KVServer) (dev : Device) (cmd : WalCommand) :
    Except WalError (Option Item) × KVServer :=
  match appendWAL dev cmd s.logFile with
  | (some e, file) => (.error e, ⟨s.tree, file⟩)
  | (none, file) => (.ok (s.tree.get cmd.key), ⟨applyCommand s.tree cmd, file⟩)

/-- `Put`: `found` is whether the key was there before. -/
def put (s : KVServer) (dev : Device) (key value : String) :
    Except WalError PutReply × KVServer :=
  ((s.mutate dev ⟨"put", key, value⟩).1.map fun prev => ⟨prev.isSome⟩,
    (s.mutate dev ⟨"put", key, value⟩).2)

/-- `Get`. -/
def get (s : KVServer) (key : String) : GetReply := getReply s.tree key

/-- `Swap`: the old value is the one read before the append. -/
def swap (s : KVServer) (dev : Device) (key value : String) :
    Except WalError SwapReply × KVServer :=
  ((s.mutate dev ⟨"swap", key, value⟩).1.map swapReply, (s.mutate dev ⟨"swap", key, value⟩).2)

/-- `Delete`: the command carries no value. -/
def delete (s : KVServer) (dev : Device) (key : String) :
    Except WalError DeleteReply × KVServer :=
  ((s.mutate dev ⟨"delete", key, ""⟩).1.map fun prev => ⟨prev.isSome⟩,
    (s.mutate dev ⟨"delete", key, ""⟩).2)

/-- `Scan`. -/
def scan (s : KVServer) (startKey endKey : String) : List KVPair :=
  KVStore.scan s.tree startKey endKey

/-- The server's answer to a point request on a device behaving as `dev`. -/
def handle (s : KVServer) (dev : Device) : Request → Except WalError Reply × KVServer
  | .put k v => ((s.put dev k v).1.map .put, (s.put dev k v).2)
  | .get k => (.ok (.get (s.get k)), s)
  | .swap k v => ((s.swap dev k v).1.map .swap, (s.swap dev k v).2)
  | .delete k => ((s.delete dev k).1.map .delete, (s.delete dev k).2)

/-! ## One request -/

/-- Everything a mutation can do: log and apply an accepted command, or
report the append's error with the tree untouched and the file as the append
left it. -/
theorem mutate_cases (s : KVServer) (dev : Device) (cmd : WalCommand) :
    (Fits cmd ∧ appendWAL dev cmd s.logFile = (none, s.logFile ++ frame cmd) ∧
      s.mutate dev cmd = (.ok (s.tree.get cmd.key), ⟨applyCommand s.tree cmd, s.logFile ++ frame cmd⟩)) ∨
    ∃ e file, appendWAL dev cmd s.logFile = (some e, file) ∧
      s.mutate dev cmd = (.error e, ⟨s.tree, file⟩) := by
  unfold mutate
  rcases hw : appendWAL dev cmd s.logFile with ⟨_ | e, file⟩
  · obtain ⟨hc, hf⟩ := appendWAL_none (congrArg Prod.fst hw)
    rw [hw] at hf
    subst hf
    exact .inl ⟨hc, rfl, rfl⟩
  · exact .inr ⟨e, file, rfl, rfl⟩

theorem mutate_reliable (s : KVServer) {cmd : WalCommand} (hc : Fits cmd) :
    s.mutate .reliable cmd =
      (.ok (s.tree.get cmd.key), ⟨applyCommand s.tree cmd, s.logFile ++ frame cmd⟩) := by
  rw [mutate, appendWAL_reliable hc]

/-- A mutation is `mutate` on its command, with the reply made from the item
read before the append. -/
theorem handle_mutate (s : KVServer) (dev : Device) {r : Request} {cmd : WalCommand}
    (hr : commandOf r = some cmd) :
    ∃ f : Option Item → Reply, (∀ t : BTree, f (t.get cmd.key) = (r.apply t.toMap).1) ∧
      (s.handle dev r).1 = (s.mutate dev cmd).1.map f ∧ (s.handle dev r).2 = (s.mutate dev cmd).2 := by
  cases r <;> cases hr <;> simp only [handle, put, swap, delete, and_true]
  · exact ⟨fun prev => .put ⟨prev.isSome⟩, fun t => by simp [Request.apply, isSome_get],
      by cases (s.mutate dev _).1 <;> rfl⟩
  · exact ⟨fun prev => .swap (swapReply prev), fun t => by simp [Request.apply, swapReply_get],
      by cases (s.mutate dev _).1 <;> rfl⟩
  · exact ⟨fun prev => .delete ⟨prev.isSome⟩, fun t => by simp [Request.apply, isSome_get],
      by cases (s.mutate dev _).1 <;> rfl⟩

/-- An acknowledged request: the reply is the abstract one on the map the tree
stands for, and its command passed the checks and was logged and applied. -/
theorem handle_ok {s : KVServer} {dev : Device} {r : Request} {reply : Reply}
    (h : (s.handle dev r).1 = .ok reply) :
    reply = (r.apply s.tree.toMap).1 ∧ (∀ c ∈ (commandOf r).toList, Fits c) ∧
      (s.handle dev r).2 =
        ⟨applyAll s.tree (commandOf r).toList, s.logFile ++ frames (commandOf r).toList⟩ := by
  cases hr : commandOf r with
  | none =>
      cases r <;> cases hr
      cases h
      simp [handle, get, Request.apply, getReply_eq, frames]
  | some cmd =>
      obtain ⟨f, hf, h1, h2⟩ := handle_mutate s dev hr
      rcases mutate_cases s dev cmd with ⟨hc, -, hm⟩ | ⟨e, file, -, hm⟩ <;> rw [h1, hm] at h
      · obtain rfl := Except.ok.inj h
        rw [h2, hm]
        exact ⟨hf s.tree, by simpa using hc, by simp [frames]⟩
      · cases h

theorem toMap_applyAll_commandOf (t : BTree) (r : Request) :
    (applyAll t (commandOf r).toList).toMap = (r.apply t.toMap).2 := by
  cases r <;> simp [commandOf, applyAll, toMap_applyCommand, Request.apply]

/-- An acknowledged request does to the map what the abstract service does. -/
theorem handle_refines {s : KVServer} {dev : Device} {r : Request} {reply : Reply}
    (h : (s.handle dev r).1 = .ok reply) :
    reply = (r.apply s.tree.toMap).1 ∧ (s.handle dev r).2.tree.toMap = (r.apply s.tree.toMap).2 := by
  obtain ⟨hr, -, hs⟩ := handle_ok h
  rw [hs]
  exact ⟨hr, toMap_applyAll_commandOf s.tree r⟩

/-- A refused request: it was a mutation, its append reported the error, and
only the file changed. -/
theorem handle_error {s : KVServer} {dev : Device} {r : Request} {e : WalError}
    (h : (s.handle dev r).1 = .error e) :
    ∃ cmd, commandOf r = some cmd ∧
      appendWAL dev cmd s.logFile = (some e, (s.handle dev r).2.logFile) ∧
      (s.handle dev r).2.tree = s.tree := by
  cases hr : commandOf r with
  | none =>
      cases r <;> cases hr
      cases h
  | some cmd =>
      obtain ⟨f, -, h1, h2⟩ := handle_mutate s dev hr
      rcases mutate_cases s dev cmd with ⟨-, -, hm⟩ | ⟨e', file, hw, hm⟩ <;> rw [h1, hm] at h
      · cases h
      · obtain rfl := Except.error.inj h
        rw [h2, hm]
        exact ⟨cmd, rfl, hw, rfl⟩

end KVServer

/-! ## Runs and restarts -/

/-- The log holds exactly the frames of the commands `cs`, each one
`appendWAL` accepts, and the tree is those commands applied to an empty
tree. -/
structure Consistent (cs : List WalCommand) (s : KVServer) : Prop where
  log_eq : s.logFile = frames cs
  fits : ∀ c ∈ cs, Fits c
  tree_eq : s.tree = applyAll BTree.empty cs

theorem newKVServer_nil : newKVServer [] = .ok ⟨BTree.empty, []⟩ := by
  rw [newKVServer, replayWAL, replayFrames_short _ _ (by simp)]
  rfl

theorem consistent_nil : Consistent [] ⟨BTree.empty, []⟩ := ⟨rfl, by simp, rfl⟩

/-- On a consistent log, `newKVServer` rebuilds the live server. -/
theorem newKVServer_consistent {cs : List WalCommand} {s : KVServer} (h : Consistent cs s) :
    newKVServer s.logFile = .ok s := by
  rw [newKVServer, h.log_eq, replayWAL_frames _ h.fits, ← h.tree_eq, ← h.log_eq]
  rfl

theorem consistent_restart {cs : List WalCommand} {s s' : KVServer} (h : Consistent cs s)
    (hr : newKVServer s.logFile = .ok s') : Consistent cs s' := by
  rw [newKVServer_consistent h] at hr
  cases hr
  exact h

theorem consistent_handle {cs : List WalCommand} {s : KVServer} {dev : Device} {r : Request}
    {reply : Reply} (h : Consistent cs s) (hr : (s.handle dev r).1 = .ok reply) :
    Consistent (cs ++ (commandOf r).toList) (s.handle dev r).2 := by
  obtain ⟨-, hc, hs⟩ := KVServer.handle_ok hr
  rw [hs]
  refine ⟨?_, ?_, ?_⟩
  · simp only [h.log_eq, frames, List.flatMap_append]
  · intro c hc'
    rcases List.mem_append.1 hc' with hm | hm
    exacts [h.fits c hm, hc c hm]
  · simp only [h.tree_eq, applyAll_append]

/-- On a device that does not fail, every request keeps the log consistent:
an acknowledged one adds its command, and a refused one, whose command fails
the checks of `appendWAL`, leaves the server as it was. -/
theorem consistent_handle_reliable {cs : List WalCommand} {s : KVServer} (h : Consistent cs s)
    (r : Request) : ∃ cs', Consistent cs' (s.handle .reliable r).2 := by
  cases hr : (s.handle .reliable r).1 with
  | ok reply => exact ⟨_, consistent_handle h hr⟩
  | error e =>
      obtain ⟨cmd, -, hw, ht⟩ := KVServer.handle_error hr
      rcases appendWAL_cases .reliable cmd s.logFile with ⟨-, -, hf⟩ | ⟨hc, -⟩ | ⟨hc, -⟩
      · rw [hw] at hf
        exact ⟨cs, hf.trans h.log_eq, h.fits, ht.trans h.tree_eq⟩
      all_goals simp [appendWAL_reliable hc] at hw

/-- The states of a run of the server from an empty log, with the commands it
acknowledged, in order: requests whose append succeeded, and restarts on the
same file. -/
inductive Reach : List WalCommand → KVServer → Prop
  | init {s : KVServer} : newKVServer [] = .ok s → Reach [] s
  | request {cs : List WalCommand} {s : KVServer} {dev : Device} {r : Request} {reply : Reply} :
      Reach cs s → (s.handle dev r).1 = .ok reply → Reach (cs ++ (commandOf r).toList) (s.handle dev r).2
  | restart {cs : List WalCommand} {s s' : KVServer} :
      Reach cs s → newKVServer s.logFile = .ok s' → Reach cs s'

theorem reach_consistent {cs : List WalCommand} {s : KVServer} (h : Reach cs s) :
    Consistent cs s := by
  induction h with
  | init h0 =>
      rw [newKVServer_nil] at h0
      cases h0
      exact consistent_nil
  | request _ hr ih => exact consistent_handle ih hr
  | restart _ hr ih => exact consistent_restart ih hr

/-- Durability of the file-backed server: over every run from an empty log,
the log is the frames of the acknowledged commands, it decodes back to exactly
those commands in order, and `newKVServer` on it succeeds and rebuilds the live
tree. -/
theorem reach_durable {cs : List WalCommand} {s : KVServer} (h : Reach cs s) :
    (∀ c ∈ cs, Fits c) ∧ s.logFile = frames cs ∧ walCommands s.logFile = .ok cs ∧
      newKVServer s.logFile = .ok s ∧ s.tree = applyAll BTree.empty cs := by
  have hc := reach_consistent h
  exact ⟨hc.fits, hc.log_eq, hc.log_eq ▸ walCommands_frames_nil hc.fits,
    newKVServer_consistent hc, hc.tree_eq⟩

/-- One acknowledged `Put` and a restart. -/
theorem reach_durable_put_restart :
    let s : KVServer := ((⟨BTree.empty, []⟩ : KVServer).handle .reliable (.put "a" "1")).2
    Reach [⟨"put", "a", "1"⟩] s ∧ ((∀ c ∈ [(⟨"put", "a", "1"⟩ : WalCommand)], Fits c) ∧
      s.logFile = frames [⟨"put", "a", "1"⟩] ∧ walCommands s.logFile = .ok [⟨"put", "a", "1"⟩] ∧
      newKVServer s.logFile = .ok s ∧ s.tree = applyAll BTree.empty [⟨"put", "a", "1"⟩]) :=
  have h1 := @Reach.request [] _ .reliable (.put "a" "1") (.put ⟨false⟩)
    (Reach.init newKVServer_nil) rfl
  have h2 := Reach.restart h1 (newKVServer_consistent (reach_consistent h1))
  ⟨h2, reach_durable h2⟩

end KVStore.File
