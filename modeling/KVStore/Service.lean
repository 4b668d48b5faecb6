/-
# `KVStore.Service` — the five RPCs, and the finite map they are meant to implement

The reply messages of `kvstore.proto` (`kvpb.PutReply` and the rest) as the
servers fill them, the two handlers the three servers share word for word
(`Get`, and the reply `Swap` builds from the item it read), and the abstract
service: a finite map `Store` on which each point request has one reply and one
successor (`Request.apply`).  That map is what every server is proved to
refine, in `KVStore.Refinement`.
-/
import KVStore.Scan

namespace KVStore

/-- `kvpb.PutReply`. -/
structure PutReply where
  found : Bool
deriving DecidableEq, Repr

/-- `kvpb.GetReply`; `value` is the empty string when nothing was found. -/
structure GetReply where
  found : Bool
  value : String
deriving DecidableEq, Repr

/-- `kvpb.SwapReply`; `oldValue` is the empty string when nothing was found. -/
structure SwapReply where
  found : Bool
  oldValue : String
deriving DecidableEq, Repr

/-- `kvpb.DeleteReply`. -/
structure DeleteReply where
  found : Bool
deriving DecidableEq, Repr

/-- The body of `Get`, the same in all three servers. -/
def getReply (t : BTree) (key : String) : GetReply :=
  match t.get key with
  | none => ⟨false, ""⟩
  | some it => ⟨true, it.value⟩

/-- The reply `Swap` builds from the item `got` it read before writing. -/
def swapReply (got : Option Item) : SwapReply :=
  match got with
  | none => ⟨false, ""⟩
  | some it => ⟨true, it.value⟩

/-! ## The abstract service -/

/-- The state the service is about: a finite map from keys to values. -/
def Store : Type := String → Option String

/-- A point request: `Put`, `Get`, `Swap` or `Delete`. -/
inductive Request where
  | put (key value : String)
  | get (key : String)
  | swap (key value : String)
  | delete (key : String)
deriving DecidableEq, Repr

/-- The reply to a point request. -/
inductive Reply where
  | put (r : PutReply)
  | get (r : GetReply)
  | swap (r : SwapReply)
  | delete (r : DeleteReply)
deriving DecidableEq, Repr

/-- What a request should answer on `M`, and the map it leaves. -/
def Request.apply (M : Store) : Request → Reply × Store
  | .put k v => (.put ⟨(M k).isSome⟩, Function.update M k (some v))
  | .get k => (.get ⟨(M k).isSome, (M k).getD ""⟩, M)
  | .swap k v => (.swap ⟨(M k).isSome, (M k).getD ""⟩, Function.update M k (some v))
  | .delete k => (.delete ⟨(M k).isSome⟩, Function.update M k none)

/-- A sequence of requests on the abstract map: the replies, and the final map. -/
def Request.run (M : Store) : List Request → List Reply × Store
  | [] => ([], M)
  | r :: rs =>
    ((r.apply M).1 :: (Request.run (r.apply M).2 rs).1, (Request.run (r.apply M).2 rs).2)

@[simp] theorem Request.run_nil (M : Store) : Request.run M [] = ([], M) := rfl

theorem Request.run_cons (M : Store) (r : Request) (rs : List Request) :
    Request.run M (r :: rs) =
      ((r.apply M).1 :: (Request.run (r.apply M).2 rs).1, (Request.run (r.apply M).2 rs).2) :=
  rfl

/-- A log read into a list, a command at a time, is the log. -/
theorem foldl_snoc {α : Type} (acc cs : List α) :
    cs.foldl (fun acc c => acc ++ [c]) acc = acc ++ cs := by
  induction cs generalizing acc with
  | nil => simp
  | cons c cs ih => simp [ih]

theorem getReply_eq (t : BTree) (key : String) :
    getReply t key = ⟨(t.toMap key).isSome, (t.toMap key).getD ""⟩ := by
  unfold getReply BTree.toMap
  cases t.get key <;> rfl

theorem swapReply_get (t : BTree) (key : String) :
    swapReply (t.get key) = ⟨(t.toMap key).isSome, (t.toMap key).getD ""⟩ := by
  unfold swapReply BTree.toMap
  cases t.get key <;> rfl

theorem isSome_get (t : BTree) (key : String) : (t.get key).isSome = (t.toMap key).isSome := by
  simp [BTree.toMap]

end KVStore
