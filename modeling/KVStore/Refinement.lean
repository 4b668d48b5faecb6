/-
# `KVStore.Refinement` — the three servers implement one finite map

## What is proved

For every sequence of point requests `rs`, run on each server from a state
whose tree stands for the map `M`:

    (s.run rs).1 = (Request.run M rs).1
    (s.run rs).2.tree.toMap = (Request.run M rs).2

for the in-memory server, and for the two durable servers the same with every
reply wrapped in `.ok`, whenever no append failed (`servers_refine_map`).  The
in-memory server reads `found` off what `ReplaceOrInsert` and `Delete` hand
back, the durable ones read it with `Get` before appending; on every such
sequence the three give the same replies.

Each server contributes one step lemma (`handle_apply`, `handle_refines`) and
the run lemmas here are the induction over the sequence.

`Scan` is not a point request, but it reads nothing but the tree, and a tree is
fixed by its map: after the same requests the durable servers hold the very
tree the in-memory server holds, and so answer every `Scan` as it does
(`servers_agree_on_scan`).
-/
import KVStore.Memory
import KVStore.File.Server
import KVStore.Sqlite.Server

namespace KVStore

/-- A sequence of point requests on the file-backed server, each on a device
behaving as given: the replies, and the final server. -/
def File.KVServer.run (s : File.KVServer) :
    List (File.Device × Request) → List (Except File.WalError Reply) × File.KVServer
  | [] => ([], s)
  | (dev, r) :: rs =>
    ((s.handle dev r).1 :: ((s.handle dev r).2.run rs).1, ((s.handle dev r).2.run rs).2)

/-- A sequence of point requests on the SQLite server, each with an `INSERT`
that succeeds or not as given: the replies, and the final server. -/
def Sqlite.KVServer.run (sc : Sqlite.Schema) (s : Sqlite.KVServer) :
    List (Bool × Request) → List (Except Sqlite.LogError Reply) × Sqlite.KVServer
  | [] => ([], s)
  | (ok, r) :: rs =>
    ((s.handle sc ok r).1 :: ((s.handle sc ok r).2.run sc rs).1,
      ((s.handle sc ok r).2.run sc rs).2)

theorem File.KVServer.run_refines (s : File.KVServer) (rs : List (File.Device × Request))
    (hok : ∀ x ∈ (s.run rs).1, x.isOk) :
    (s.run rs).1 = (Request.run s.tree.toMap (rs.map (·.2))).1.map .ok ∧
      (s.run rs).2.tree.toMap = (Request.run s.tree.toMap (rs.map (·.2))).2 := by
  induction rs generalizing s with
  | nil => simp [run]
  | cons x rs ih =>
      obtain ⟨dev, r⟩ := x
      have hx : ((s.handle dev r).1).isOk := hok _ (.head _)
      obtain ⟨reply, hr⟩ : ∃ reply, (s.handle dev r).1 = .ok reply := by
        revert hx
        cases (s.handle dev r).1 <;> simp [Except.isOk, Except.toBool]
      obtain ⟨h1, h2⟩ := handle_refines hr
      obtain ⟨ih1, ih2⟩ := ih (s.handle dev r).2 fun y hy => hok y (.tail _ hy)
      simp only [run, List.map_cons, Request.run_cons, hr, h1, ih1, ih2, ← h2, List.map_cons,
        true_and]

theorem Sqlite.KVServer.run_refines (sc : Sqlite.Schema) (s : Sqlite.KVServer)
    (rs : List (Bool × Request)) (hok : ∀ x ∈ (s.run sc rs).1, x.isOk) :
    (s.run sc rs).1 = (Request.run s.tree.toMap (rs.map (·.2))).1.map .ok ∧
      (s.run sc rs).2.tree.toMap = (Request.run s.tree.toMap (rs.map (·.2))).2 := by
  induction rs generalizing s with
  | nil => simp [run]
  | cons x rs ih =>
      obtain ⟨ok, r⟩ := x
      have hx : ((s.handle sc ok r).1).isOk := hok _ (.head _)
      obtain ⟨reply, hr⟩ : ∃ reply, (s.handle sc ok r).1 = .ok reply := by
        revert hx
        cases (s.handle sc ok r).1 <;> simp [Except.isOk, Except.toBool]
      obtain ⟨h1, h2⟩ := handle_refines hr
      obtain ⟨ih1, ih2⟩ := ih (s.handle sc ok r).2 fun y hy => hok y (.tail _ hy)
      simp only [run, List.map_cons, Request.run_cons, hr, h1, ih1, ih2, ← h2, List.map_cons,
        true_and]

/-- On a device that does not fail, a request whose command passes the checks
of `appendWAL` is acknowledged. -/
theorem File.KVServer.handle_reliable_isOk (s : File.KVServer) {r : Request}
    (hr : ∀ c ∈ (File.commandOf r).toList, File.Fits c) : ((s.handle .reliable r).1).isOk := by
  cases r with
  | get k => rfl
  | put k v | swap k v | delete k =>
      simp only [File.commandOf, Option.toList, List.mem_singleton, forall_eq] at hr
      simp [File.KVServer.handle, File.KVServer.put, File.KVServer.swap, File.KVServer.delete,
        File.KVServer.mutate_reliable s hr, Except.map, Except.isOk, Except.toBool]

/-- An `INSERT` that succeeds acknowledges every request. -/
theorem Sqlite.KVServer.handle_true_isOk (sc : Sqlite.Schema) (s : Sqlite.KVServer)
    (r : Request) : ((s.handle sc true r).1).isOk := by
  cases r with
  | get k => rfl
  | put k v | swap k v | delete k =>
      simp [Sqlite.KVServer.handle, Sqlite.KVServer.put, Sqlite.KVServer.swap,
        Sqlite.KVServer.delete, Sqlite.KVServer.mutate_true, Sqlite.isValidOp, Except.map,
        Except.isOk, Except.toBool]

/-- The three servers refine the abstract map: on every sequence of point
requests in which no append fails, each reply is the one the map gives on the
state before the request, and the tree stands for the map after it; so the
in-memory server and the two durable ones give the same replies. -/
theorem servers_refine_map :
    (∀ (s : Memory.KVServer) (rs : List Request),
      (s.run rs).1 = (Request.run s.tree.toMap rs).1 ∧
        (s.run rs).2.tree.toMap = (Request.run s.tree.toMap rs).2) ∧
    (∀ (s : File.KVServer) (rs : List (File.Device × Request)), (∀ x ∈ (s.run rs).1, x.isOk) →
      (s.run rs).1 = (Request.run s.tree.toMap (rs.map (·.2))).1.map .ok ∧
        (s.run rs).2.tree.toMap = (Request.run s.tree.toMap (rs.map (·.2))).2) ∧
    (∀ (sc : Sqlite.Schema) (s : Sqlite.KVServer) (rs : List (Bool × Request)),
      (∀ x ∈ (s.run sc rs).1, x.isOk) →
      (s.run sc rs).1 = (Request.run s.tree.toMap (rs.map (·.2))).1.map .ok ∧
        (s.run sc rs).2.tree.toMap = (Request.run s.tree.toMap (rs.map (·.2))).2) ∧
    (∀ (m : Memory.KVServer) (f : File.KVServer) (rs : List (File.Device × Request)),
      m.tree.toMap = f.tree.toMap → (∀ x ∈ (f.run rs).1, x.isOk) →
        (f.run rs).1 = (m.run (rs.map (·.2))).1.map .ok) ∧
    (∀ (sc : Sqlite.Schema) (m : Memory.KVServer) (q : Sqlite.KVServer)
      (rs : List (Bool × Request)), m.tree.toMap = q.tree.toMap → (∀ x ∈ (q.run sc rs).1, x.isOk) →
        (q.run sc rs).1 = (m.run (rs.map (·.2))).1.map .ok) :=
  ⟨Memory.KVServer.run_apply, File.KVServer.run_refines, Sqlite.KVServer.run_refines,
    fun m f rs hm hok => by
      rw [(File.KVServer.run_refines f rs hok).1, (Memory.KVServer.run_apply m _).1, hm],
    fun sc m q rs hm hok => by
      rw [(Sqlite.KVServer.run_refines sc q rs hok).1, (Memory.KVServer.run_apply m _).1, hm]⟩

/-- A `Put` and a `Get` on fresh servers, no append failing. -/
theorem servers_refine_map_put_get :
    let f : File.KVServer := ⟨BTree.empty, []⟩
    let q : Sqlite.KVServer := ⟨BTree.empty, .empty⟩
    let rf : List (File.Device × Request) := [(.reliable, .put "a" "1"), (.reliable, .get "a")]
    let rq : List (Bool × Request) := [(true, .put "a" "1"), (true, .get "a")]
    (∀ x ∈ (f.run rf).1, x.isOk) ∧ (∀ x ∈ (q.run .sample rq).1, x.isOk) ∧
      ((f.run rf).1 = (Request.run f.tree.toMap (rf.map (·.2))).1.map .ok ∧
        (f.run rf).2.tree.toMap = (Request.run f.tree.toMap (rf.map (·.2))).2) ∧
      ((q.run .sample rq).1 = (Request.run q.tree.toMap (rq.map (·.2))).1.map .ok ∧
        (q.run .sample rq).2.tree.toMap = (Request.run q.tree.toMap (rq.map (·.2))).2) ∧
      (f.run rf).1 = (Memory.newKVServer.run (rf.map (·.2))).1.map .ok ∧
      (q.run .sample rq).1 = (Memory.newKVServer.run (rq.map (·.2))).1.map .ok :=
  have hokf : ∀ x ∈ ((⟨BTree.empty, []⟩ : File.KVServer).run
      [(.reliable, .put "a" "1"), (.reliable, .get "a")]).1, x.isOk := by decide
  have hokq : ∀ x ∈ ((⟨BTree.empty, .empty⟩ : Sqlite.KVServer).run .sample
      [(true, .put "a" "1"), (true, .get "a")]).1, x.isOk := by decide
  ⟨hokf, hokq, servers_refine_map.2.1 _ _ hokf, servers_refine_map.2.2.1 _ _ _ hokq,
    servers_refine_map.2.2.2.1 Memory.newKVServer _ _ rfl hokf,
    servers_refine_map.2.2.2.2 _ Memory.newKVServer _ _ rfl hokq⟩

/-- From trees standing for one map, after the same point requests with no
failed append, the file-backed and the SQLite servers hold the very tree the
in-memory server holds, so every `Scan` gives the same pairs on the three. -/
theorem servers_agree_on_scan (m : Memory.KVServer) (f : File.KVServer) (sc : Sqlite.Schema)
    (q : Sqlite.KVServer) (rf : List (File.Device × Request)) (rq : List (Bool × Request))
    (hf : f.tree.toMap = m.tree.toMap) (hq : q.tree.toMap = m.tree.toMap)
    (hr : rf.map (·.2) = rq.map (·.2)) (hokf : ∀ x ∈ (f.run rf).1, x.isOk)
    (hokq : ∀ x ∈ (q.run sc rq).1, x.isOk) :
    (f.run rf).2.tree = (m.run (rf.map (·.2))).2.tree ∧
      (q.run sc rq).2.tree = (m.run (rf.map (·.2))).2.tree ∧
      ∀ startKey endKey : String,
        (f.run rf).2.scan startKey endKey = (m.run (rf.map (·.2))).2.scan startKey endKey ∧
        (q.run sc rq).2.scan startKey endKey = (m.run (rf.map (·.2))).2.scan startKey endKey := by
  have hm := (Memory.KVServer.run_apply m (rf.map (·.2))).2
  have ef : (f.run rf).2.tree = (m.run (rf.map (·.2))).2.tree := by
    apply BTree.eq_of_toMap_eq
    rw [(File.KVServer.run_refines f rf hokf).2, hm, hf]
  have eq : (q.run sc rq).2.tree = (m.run (rf.map (·.2))).2.tree := by
    apply BTree.eq_of_toMap_eq
    rw [(Sqlite.KVServer.run_refines sc q rq hokq).2, hm, hq, hr]
  exact ⟨ef, eq, fun startKey endKey =>
    ⟨congrArg (scan · startKey endKey) ef, congrArg (scan · startKey endKey) eq⟩⟩

theorem servers_agree_on_scan_put :
    let f : File.KVServer := ⟨BTree.empty, []⟩
    let q : Sqlite.KVServer := ⟨BTree.empty, .empty⟩
    let rf : List (File.Device × Request) := [(.reliable, .put "a" "1")]
    let rq : List (Bool × Request) := [(true, .put "a" "1")]
    (∀ x ∈ (f.run rf).1, x.isOk) ∧ (∀ x ∈ (q.run .sample rq).1, x.isOk) ∧
      ((f.run rf).2.tree = (Memory.newKVServer.run (rf.map (·.2))).2.tree ∧
        (q.run .sample rq).2.tree = (Memory.newKVServer.run (rf.map (·.2))).2.tree ∧
        ∀ startKey endKey : String,
          (f.run rf).2.scan startKey endKey =
              (Memory.newKVServer.run (rf.map (·.2))).2.scan startKey endKey ∧
            (q.run .sample rq).2.scan startKey endKey =
              (Memory.newKVServer.run (rf.map (·.2))).2.scan startKey endKey) :=
  have hokf : ∀ x ∈ ((⟨BTree.empty, []⟩ : File.KVServer).run [(.reliable, .put "a" "1")]).1,
      x.isOk := by decide
  have hokq : ∀ x ∈ ((⟨BTree.empty, .empty⟩ : Sqlite.KVServer).run .sample
      [(true, .put "a" "1")]).1, x.isOk := by decide
  ⟨hokf, hokq, servers_agree_on_scan Memory.newKVServer ⟨BTree.empty, []⟩ .sample ⟨BTree.empty, .empty⟩
    [(.reliable, .put "a" "1")] [(true, .put "a" "1")] rfl rfl rfl hokf hokq⟩

end KVStore
