/-
# `KVStore.Memory` — the in-memory server

The first server of the repository keeps only the tree.  Unlike the two durable
servers it reads `found` off what the tree hands back: `Put` from the item
`ReplaceOrInsert` displaced, `Delete` from the item `Delete` removed.  `Swap`
reads with `Get` first, as the durable servers do for every mutation.

`handle_apply` is its one step against the abstract map: every reply is the
one `Request.apply` gives on the map before the request, and the tree after it
stands for the map `Request.apply` leaves.
-/
import KVStore.Service

namespace KVStore.Memory

/-- `kvServer` of the in-memory server: the tree, behind one mutex. -/
structure KVServer where
  tree : BTree

/-- `newKVServer()`. -/
def newKVServer : KVServer := ⟨BTree.empty⟩

namespace KVServer

/-- `Put`: `found` is whether `ReplaceOrInsert` displaced an item. -/
def put (s : KVServer) (key value : String) : PutReply × KVServer :=
  (⟨(s.tree.replaceOrInsert ⟨key, value⟩).1.isSome⟩, ⟨(s.tree.replaceOrInsert ⟨key, value⟩).2⟩)

/-- `Get`. -/
def get (s : KVServer) (key : String) : GetReply := getReply s.tree key

/-- `Swap`: `Get` first, then `ReplaceOrInsert`. -/
def swap (s : KVServer) (key value : String) : SwapReply × KVServer :=
  (swapReply (s.tree.get key), ⟨(s.tree.replaceOrInsert ⟨key, value⟩).2⟩)

/-- `Delete`: `found` is whether `Delete` removed an item. -/
def delete (s : KVServer) (key : String) : DeleteReply × KVServer :=
  (⟨(s.tree.delete key).1.isSome⟩, ⟨(s.tree.delete key).2⟩)

/-- `Scan`. -/
def scan (s : KVServer) (startKey endKey : String) : List KVPair :=
  KVStore.scan s.tree startKey endKey

/-- The server's answer to a point request. -/
def handle (s : KVServer) : Request → Reply × KVServer
  | .put k v => ((s.put k v).1 |> .put, (s.put k v).2)
  | .get k => (.get (s.get k), s)
  | .swap k v => ((s.swap k v).1 |> .swap, (s.swap k v).2)
  | .delete k => ((s.delete k).1 |> .delete, (s.delete k).2)

/-- A sequence of point requests: the replies, and the final server. -/
def run (s : KVServer) : List Request → List Reply × KVServer
  | [] => ([], s)
  | r :: rs => ((s.handle r).1 :: ((s.handle r).2.run rs).1, ((s.handle r).2.run rs).2)

/-- One request: the reply is the abstract one on the map before it, and the
tree afterwards stands for the abstract successor. -/
theorem handle_apply (s : KVServer) (r : Request) :
    (s.handle r).1 = (r.apply s.tree.toMap).1 ∧
      (s.handle r).2.tree.toMap = (r.apply s.tree.toMap).2 := by
  cases r with
  | put k v =>
      simp [handle, put, Request.apply, BTree.get_replaceOrInsert_fst, isSome_get,
        BTree.toMap_replaceOrInsert]
  | get k => simp [handle, get, Request.apply, getReply_eq]
  | swap k v =>
      simp [handle, swap, Request.apply, swapReply_get, BTree.toMap_replaceOrInsert]
  | delete k => simp [handle, delete, Request.apply, BTree.delete_fst, isSome_get,
      BTree.toMap_delete]

theorem run_apply (s : KVServer) (rs : List Request) :
    (s.run rs).1 = (Request.run s.tree.toMap rs).1 ∧
      (s.run rs).2.tree.toMap = (Request.run s.tree.toMap rs).2 := by
  induction rs generalizing s with
  | nil => simp [run]
  | cons r rs ih =>
      obtain ⟨h1, h2⟩ := handle_apply s r
      obtain ⟨ih1, ih2⟩ := ih (s.handle r).2
      simp only [run, Request.run_cons, h1, ih1, ih2, ← h2, true_and]

end KVServer

end KVStore.Memory
