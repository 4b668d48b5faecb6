/-
# `KVStore.Sqlite.Server` — the SQLite server, and what a restart rebuilds

The second durable server logs each mutation as one row of the table
`wal_log (seq INTEGER PRIMARY KEY AUTOINCREMENT, payload BLOB NOT NULL)`.  An
`INSERT` is atomic: it adds exactly one row, at the next `seq`, or fails and
leaves the table as it was.  `replayLog` reads the payloads `ORDER BY seq`,
decodes each with `proto.Unmarshal`, and applies it.

The table keeps its rows in `seq` order with every `seq` below the next one
(`WalLog`, which carries both facts), so the ordered query returns the
payloads in the order they were inserted (`selectOrdered_insert`).  From that
and the protobuf round trip, every run with any pattern of failed inserts and
restarts keeps the table equal to the acknowledged commands, and a restart
rebuilds the live tree (`reach_recovers`).
-/
import KVStore.Sqlite.Command
import KVStore.Service

namespace KVStore.Sqlite

/-- A row of `wal_log`. -/
structure Row where
  seq : Nat
  payload : List UInt8

/-- The table `wal_log`: its rows in `seq` order, as SQLite stores a rowid
table, and the `seq` that `AUTOINCREMENT` hands out next, above every one in
use. -/
structure WalLog where
  rows : List Row
  nextSeq : Nat
  ascending : rows.Pairwise fun a b => a.seq < b.seq
  below : ∀ r ∈ rows, r.seq < nextSeq

namespace WalLog

/-- The table `CREATE TABLE IF NOT EXISTS` makes in a new directory. -/
def empty : WalLog := ⟨[], 1, .nil, by simp⟩

/-- `INSERT INTO wal_log(payload) VALUES(?)` that succeeds: one row, at the
next `seq`. -/
def insert (log : WalLog) (payload : List UInt8) : WalLog where
  rows := log.rows ++ [⟨log.nextSeq, payload⟩]
  nextSeq := log.nextSeq + 1
  ascending := List.pairwise_append.2
    ⟨log.ascending, List.pairwise_singleton _ _, fun a ha b hb => by
      rw [List.mem_singleton.1 hb]
      exact log.below a ha⟩
  below := by
    intro r hr
    rcases List.mem_append.1 hr with h | h
    · exact Nat.lt_succ_of_lt (log.below r h)
    · rw [List.mem_singleton.1 h]
      exact Nat.lt_succ_self _

/-- `SELECT payload FROM wal_log ORDER BY seq ASC`. -/
def selectOrdered (log : WalLog) : List (List UInt8) :=
  (log.rows.mergeSort fun a b => decide (a.seq ≤ b.seq)).map (·.payload)

theorem selectOrdered_eq (log : WalLog) : log.selectOrdered = log.rows.map (·.payload) := by
  rw [selectOrdered, List.mergeSort_of_sorted]
  exact log.ascending.imp fun h => decide_eq_true (Nat.le_of_lt h)

@[simp] theorem selectOrdered_empty : empty.selectOrdered = [] := by
  simp [selectOrdered_eq, empty]

/-- The ordered query sees an inserted row last. -/
theorem selectOrdered_insert (log : WalLog) (payload : List UInt8) :
    (log.insert payload).selectOrdered = log.selectOrdered ++ [payload] := by
  simp [selectOrdered_eq, insert]

end WalLog

/-- The errors of `appendLog` and `replayLog`, with the data their messages
print. -/
inductive LogError where
  | decode
  | unknownOp (op : Int)
  | appendRow
deriving DecidableEq, Repr

/-- The replay loop over any accumulator: each payload is decoded, its op
checked, and `apply`ed. -/
def replayRows {σ : Type} (sc : Schema) (apply : σ → WALCommand → σ) (acc : σ) :
    List (List UInt8) → Except LogError σ
  | [] => .ok acc
  | p :: ps =>
    match unmarshal sc p with
    | none => .error .decode
    | some cmd =>
      if isValidOp sc cmd.op then replayRows sc apply (apply acc cmd) ps
      else .error (.unknownOp cmd.op)

/-- `replayLog`: the rows, in `seq` order, applied to the tree. -/
def replayLog (sc : Schema) (t : BTree) (log : WalLog) : Except LogError BTree :=
  replayRows sc (applyCommand sc) t log.selectOrdered

/-- The commands the table decodes to, in `seq` order. -/
def logCommands (sc : Schema) (log : WalLog) : Except LogError (List WALCommand) :=
  replayRows sc (fun cs c => cs ++ [c]) [] log.selectOrdered

/-- `appendLog`: `insertOk` is whether the `INSERT` succeeds.  (`proto.Marshal`
cannot fail on a command whose strings are `String`s.) -/
def appendLog (sc : Schema) (insertOk : Bool) (cmd : WALCommand) (log : WalLog) :
    Option LogError × WalLog :=
  if !isValidOp sc cmd.op then (some (.unknownOp cmd.op), log)
  else if insertOk then (none, log.insert (marshal sc cmd))
  else (some .appendRow, log)

/-- `kvServer` of the SQLite server: the tree, and the table. -/
structure KVServer where
  tree : BTree
  db : WalLog

/-- `newKVServer` on a directory whose database holds `db`: replay it into an
empty tree. -/
def newKVServer (sc : Schema) (db : WalLog) : Except LogError KVServer :=
  (replayLog sc BTree.empty db).map fun t => ⟨t, db⟩

/-- The command a point request logs; `Get` logs none. -/
def commandOf (sc : Schema) : Request → Option WALCommand
  | .put k v => some ⟨sc.opPut, k, v⟩
  | .get _ => none
  | .swap k v => some ⟨sc.opSwap, k, v⟩
  | .delete k => some ⟨sc.opDelete, k, ""⟩

namespace KVServer

/-- What `Put`, `Swap` and `Delete` share: `Get` the key, `appendLog` the
command, and on success `applyCommand` it and hand back the item read. -/
def mutate (sc : Schema) (s : KVServer) (insertOk : Bool) (cmd : WALCommand) :
    Except LogError (Option Item) × KVServer :=
  match appendLog sc insertOk cmd s.db with
  | (some e, db) => (.error e, ⟨s.tree, db⟩)
  | (none, db) => (.ok (s.tree.get cmd.key), ⟨applyCommand sc s.tree cmd, db⟩)

/-- `Put`. -/
def put (sc : Schema) (s : KVServer) (insertOk : Bool) (key value : String) :
    Except LogError PutReply × KVServer :=
  ((s.mutate sc insertOk ⟨sc.opPut, key, value⟩).1.map fun prev => ⟨prev.isSome⟩,
    (s.mutate sc insertOk ⟨sc.opPut, key, value⟩).2)

/-- `Get`. -/
def get (s : KVServer) (key : String) : GetReply := getReply s.tree key

/-- `Swap`. -/
def swap (sc : Schema) (s : KVServer) (insertOk : Bool) (key value : String) :
    Except LogError SwapReply × KVServer :=
  ((s.mutate sc insertOk ⟨sc.opSwap, key, value⟩).1.map swapReply,
    (s.mutate sc insertOk ⟨sc.opSwap, key, value⟩).2)

/-- `Delete`. -/
def delete (sc : Schema) (s : KVServer) (insertOk : Bool) (key : String) :
    Except LogError DeleteReply × KVServer :=
  ((s.mutate sc insertOk ⟨sc.opDelete, key, ""⟩).1.map fun prev => ⟨prev.isSome⟩,
    (s.mutate sc insertOk ⟨sc.opDelete, key, ""⟩).2)

/-- `Scan`. -/
def scan (s : KVServer) (startKey endKey : String) : List KVPair :=
  KVStore.scan s.tree startKey endKey

/-- The server's answer to a point request, when the `INSERT` would succeed
or not as `insertOk` says. -/
def handle (sc : Schema) (s : KVServer) (insertOk : Bool) :
    Request → Except LogError Reply × KVServer
  | .put k v => ((s.put sc insertOk k v).1.map .put, (s.put sc insertOk k v).2)
  | .get k => (.ok (.get (s.get k)), s)
  | .swap k v => ((s.swap sc insertOk k v).1.map .swap, (s.swap sc insertOk k v).2)
  | .delete k => ((s.delete sc insertOk k).1.map .delete, (s.delete sc insertOk k).2)

/-! ## One request -/

/-- Everything a mutation can do: log and apply a command with a valid op, or
report an error and leave the server as it was. -/
theorem mutate_cases (sc : Schema) (s : KVServer) (insertOk : Bool) (cmd : WALCommand) :
    (isValidOp sc cmd.op ∧ s.mutate sc insertOk cmd =
      (.ok (s.tree.get cmd.key), ⟨applyCommand sc s.tree cmd, s.db.insert (marshal sc cmd)⟩)) ∨
    ∃ e, s.mutate sc insertOk cmd = (.error e, s) := by
  unfold mutate appendLog
  by_cases hv : isValidOp sc cmd.op
  · cases insertOk
    · exact .inr ⟨.appendRow, by simp [hv]⟩
    · exact .inl ⟨hv, by simp [hv]⟩
  · exact .inr ⟨.unknownOp cmd.op, by simp [hv]⟩

theorem mutate_true (sc : Schema) (s : KVServer) {cmd : WALCommand} (hv : isValidOp sc cmd.op) :
    s.mutate sc true cmd =
      (.ok (s.tree.get cmd.key), ⟨applyCommand sc s.tree cmd, s.db.insert (marshal sc cmd)⟩) := by
  simp [mutate, appendLog, hv]

/-- A mutation is `mutate` on its command, with the reply made from the item
read before the insert. -/
theorem handle_mutate (sc : Schema) (s : KVServer) (insertOk : Bool) {r : Request}
    {cmd : WALCommand} (hr : commandOf sc r = some cmd) :
    ∃ f : Option Item → Reply, (∀ t : BTree, f (t.get cmd.key) = (r.apply t.toMap).1) ∧
      (s.handle sc insertOk r).1 = (s.mutate sc insertOk cmd).1.map f ∧
      (s.handle sc insertOk r).2 = (s.mutate sc insertOk cmd).2 := by
  cases r <;> cases hr <;> simp only [handle, put, swap, delete, and_true]
  · exact ⟨fun prev => .put ⟨prev.isSome⟩, fun t => by simp [Request.apply, isSome_get],
      by cases (s.mutate sc insertOk _).1 <;> rfl⟩
  · exact ⟨fun prev => .swap (swapReply prev), fun t => by simp [Request.apply, swapReply_get],
      by cases (s.mutate sc insertOk _).1 <;> rfl⟩
  · exact ⟨fun prev => .delete ⟨prev.isSome⟩, fun t => by simp [Request.apply, isSome_get],
      by cases (s.mutate sc insertOk _).1 <;> rfl⟩

/-- An acknowledged request: the reply is the abstract one on the map the tree
stands for, and its command, with a valid op, was applied and inserted. -/
theorem handle_ok {sc : Schema} {s : KVServer} {insertOk : Bool} {r : Request} {reply : Reply}
    (h : (s.handle sc insertOk r).1 = .ok reply) :
    reply = (r.apply s.tree.toMap).1 ∧ (∀ c ∈ (commandOf sc r).toList, isValidOp sc c.op) ∧
      (s.handle sc insertOk r).2.tree = applyAll sc s.tree (commandOf sc r).toList ∧
      (s.handle sc insertOk r).2.db.selectOrdered =
        s.db.selectOrdered ++ (commandOf sc r).toList.map (marshal sc) := by
  cases hr : commandOf sc r with
  | none =>
      cases r <;> cases hr
      cases h
      simp [handle, get, Request.apply, getReply_eq, applyAll]
  | some cmd =>
      obtain ⟨f, hf, h1, h2⟩ := handle_mutate sc s insertOk hr
      rcases mutate_cases sc s insertOk cmd with ⟨hv, hm⟩ | ⟨e, hm⟩ <;> rw [h1, hm] at h
      · obtain rfl := Except.ok.inj h
        rw [h2, hm]
        exact ⟨hf s.tree, by simpa using hv, rfl, WalLog.selectOrdered_insert _ _⟩
      · cases h

theorem toMap_applyAll_commandOf (sc : Schema) (t : BTree) (r : Request) :
    (applyAll sc t (commandOf sc r).toList).toMap = (r.apply t.toMap).2 := by
  obtain ⟨hps, hpd, hsd⟩ := sc.ops_ne
  cases r <;>
    simp [commandOf, applyAll, applyCommand, Request.apply, BTree.toMap_replaceOrInsert,
      BTree.toMap_delete, Ne.symm hpd, Ne.symm hsd]

/-- An acknowledged request does to the map what the abstract service does. -/
theorem handle_refines {sc : Schema} {s : KVServer} {insertOk : Bool} {r : Request}
    {reply : Reply} (h : (s.handle sc insertOk r).1 = .ok reply) :
    reply = (r.apply s.tree.toMap).1 ∧
      (s.handle sc insertOk r).2.tree.toMap = (r.apply s.tree.toMap).2 := by
  obtain ⟨hr, -, ht, -⟩ := handle_ok h
  rw [ht]
  exact ⟨hr, toMap_applyAll_commandOf sc s.tree r⟩

/-- A refused request leaves the tree and the table as they were. -/
theorem handle_error {sc : Schema} {s : KVServer} {insertOk : Bool} {r : Request} {e : LogError}
    (h : (s.handle sc insertOk r).1 = .error e) : (s.handle sc insertOk r).2 = s := by
  cases hr : commandOf sc r with
  | none =>
      cases r <;> cases hr
      cases h
  | some cmd =>
      obtain ⟨f, -, h1, h2⟩ := handle_mutate sc s insertOk hr
      rcases mutate_cases sc s insertOk cmd with ⟨-, hm⟩ | ⟨e', hm⟩ <;> rw [h1, hm] at h
      · cases h
      · rw [h2, hm]

end KVServer

/-! ## Runs and restarts -/

/-- Payloads of accepted commands replay to those commands. -/
theorem replayRows_marshal {σ : Type} {sc : Schema} (apply : σ → WALCommand → σ) (acc : σ)
    {cs : List WALCommand} (hcs : ∀ c ∈ cs, Fits sc c) :
    replayRows sc apply acc (cs.map (marshal sc)) = .ok (cs.foldl apply acc) := by
  induction cs generalizing acc with
  | nil => rfl
  | cons c cs ih =>
      have hc := hcs c (.head _)
      simp only [List.map_cons, replayRows, unmarshal_marshal hc, if_pos hc.1, List.foldl_cons]
      exact ih _ fun d hd => hcs d (.tail _ hd)

/-- The table holds exactly the payloads of the commands `cs`, in `seq`
order, each one `appendLog` accepts, and the tree is those commands applied to
an empty tree. -/
structure Consistent (sc : Schema) (cs : List WALCommand) (s : KVServer) : Prop where
  log_eq : s.db.selectOrdered = cs.map (marshal sc)
  fits : ∀ c ∈ cs, Fits sc c
  tree_eq : s.tree = applyAll sc BTree.empty cs

/-- The strings of a request fit in Go strings, whose length is an `int`. -/
def Sized : Request → Prop
  | .put k v | .swap k v =>
    (goBytes k).length < 0x8000000000000000 ∧ (goBytes v).length < 0x8000000000000000
  | .get k | .delete k => (goBytes k).length < 0x8000000000000000

section Runs

variable {sc : Schema}

theorem newKVServer_empty : newKVServer sc WalLog.empty = .ok ⟨BTree.empty, WalLog.empty⟩ := by
  rw [newKVServer, replayLog, WalLog.selectOrdered_empty]
  rfl

theorem consistent_empty : Consistent sc [] ⟨BTree.empty, WalLog.empty⟩ :=
  ⟨by simp, by simp, rfl⟩

/-- On a consistent table, `newKVServer` rebuilds the live server. -/
theorem newKVServer_of_consistent {cs : List WALCommand} {s : KVServer}
    (h : Consistent sc cs s) : newKVServer sc s.db = .ok s := by
  rw [newKVServer, replayLog, h.log_eq, replayRows_marshal _ _ h.fits, ← applyAll, ← h.tree_eq]
  rfl

theorem logCommands_of_consistent {cs : List WALCommand} {s : KVServer}
    (h : Consistent sc cs s) : logCommands sc s.db = .ok cs := by
  rw [logCommands, h.log_eq, replayRows_marshal _ _ h.fits, foldl_snoc, List.nil_append]

theorem consistent_of_restart {cs : List WALCommand} {s s' : KVServer} (h : Consistent sc cs s)
    (hr : newKVServer sc s.db = .ok s') : Consistent sc cs s' := by
  rw [newKVServer_of_consistent h] at hr
  cases hr
  exact h

theorem consistent_of_handle {cs : List WALCommand} {s : KVServer} {insertOk : Bool}
    {r : Request} {reply : Reply} (h : Consistent sc cs s) (hs : Sized r)
    (hr : (s.handle sc insertOk r).1 = .ok reply) :
    Consistent sc (cs ++ (commandOf sc r).toList) (s.handle sc insertOk r).2 := by
  obtain ⟨-, hv, ht, hl⟩ := KVServer.handle_ok hr
  have hc : ∀ c ∈ (commandOf sc r).toList, Fits sc c := by
    intro c hc
    refine ⟨hv c hc, ?_⟩
    cases r <;> simp only [commandOf, Option.toList, List.mem_singleton, List.not_mem_nil] at hc <;>
      subst hc <;> simpa [Sized, goBytes] using hs
  refine ⟨by rw [hl, h.log_eq, List.map_append], fun c hc' => ?_, by
    simp only [ht, h.tree_eq, applyAll, List.foldl_append]⟩
  rcases List.mem_append.1 hc' with hm | hm
  exacts [h.fits c hm, hc c hm]

/-- The states of a run of the server from an empty table, with the commands
it acknowledged, in order: requests whose insert succeeded, requests refused
(an op `appendLog` rejects, or a failed insert), and restarts on the same
directory. -/
inductive Reach (sc : Schema) : List WALCommand → KVServer → Prop
  | init {s : KVServer} : newKVServer sc WalLog.empty = .ok s → Reach sc [] s
  | request {cs : List WALCommand} {s : KVServer} {insertOk : Bool} {r : Request}
      {reply : Reply} :
      Reach sc cs s → Sized r → (s.handle sc insertOk r).1 = .ok reply →
      Reach sc (cs ++ (commandOf sc r).toList) (s.handle sc insertOk r).2
  | refused {cs : List WALCommand} {s : KVServer} {insertOk : Bool} {r : Request}
      {e : LogError} :
      Reach sc cs s → (s.handle sc insertOk r).1 = .error e →
      Reach sc cs (s.handle sc insertOk r).2
  | restart {cs : List WALCommand} {s s' : KVServer} :
      Reach sc cs s → newKVServer sc s.db = .ok s' → Reach sc cs s'

theorem consistent_of_reach {cs : List WALCommand} {s : KVServer} (h : Reach sc cs s) :
    Consistent sc cs s := by
  induction h with
  | init h0 =>
      rw [newKVServer_empty] at h0
      cases h0
      exact consistent_empty
  | request _ hs hr ih => exact consistent_of_handle ih hs hr
  | refused _ hr ih => exact (KVServer.handle_error hr).symm ▸ ih
  | restart _ hr ih => exact consistent_of_restart ih hr

/-- Durability of the SQLite server: over every run from an empty table, with
any inserts failing and any restarts, the table decodes in `seq` order to
exactly the acknowledged commands, `newKVServer` on it succeeds and rebuilds
the live tree, and a refused mutation changes neither the tree nor the
table. -/
theorem reach_recovers {cs : List WALCommand} {s : KVServer} (h : Reach sc cs s) :
    logCommands sc s.db = .ok cs ∧ newKVServer sc s.db = .ok s ∧
      s.tree = applyAll sc BTree.empty cs ∧
      ∀ insertOk r e, (s.handle sc insertOk r).1 = .error e → (s.handle sc insertOk r).2 = s := by
  have hc := consistent_of_reach h
  exact ⟨logCommands_of_consistent hc, newKVServer_of_consistent hc, hc.tree_eq,
    fun _ _ _ => KVServer.handle_error⟩

/-- An acknowledged `Put`, a `Delete` whose insert fails, and a restart. -/
theorem reach_recovers_put_refused_restart :
    let s : KVServer :=
      ((((⟨BTree.empty, WalLog.empty⟩ : KVServer).handle Schema.sample true (.put "a" "1")).2).handle
        Schema.sample false (.delete "a")).2
    Reach Schema.sample [⟨1, "a", "1"⟩] s ∧
      (logCommands Schema.sample s.db = .ok [⟨1, "a", "1"⟩] ∧
        newKVServer Schema.sample s.db = .ok s ∧
        s.tree = applyAll Schema.sample BTree.empty [⟨1, "a", "1"⟩] ∧
        ∀ insertOk r e, (s.handle Schema.sample insertOk r).1 = .error e →
          (s.handle Schema.sample insertOk r).2 = s) :=
  have h1 := @Reach.request Schema.sample [] _ true (.put "a" "1") (.put ⟨false⟩)
    (Reach.init newKVServer_empty) ⟨by decide, by decide⟩ rfl
  have h2 := @Reach.refused Schema.sample _ _ false (.delete "a") .appendRow h1 rfl
  have h3 := Reach.restart h2 (newKVServer_of_consistent (consistent_of_reach h2))
  ⟨h3, reach_recovers h3⟩

end Runs

end KVStore.Sqlite
