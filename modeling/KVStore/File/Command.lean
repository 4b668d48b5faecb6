/-
# `KVStore.File.Command` — the record of the file-backed log, and what it does to the tree

`walCommand` is the unit of the file-backed write-ahead log: an `op` (`put`,
`swap` or `delete`), a key, and a value that `delete` leaves empty.
`applyCommand` is the one place the tree is mutated, live and in replay alike,
so everything the replay proofs need about the tree is `toMap_applyCommand`.
-/
import KVStore.Service

namespace KVStore.File

/-- `walCommand`: `Op`, `Key`, `Value`, with JSON names `op`, `key` and
`value,omitempty`. -/
structure WalCommand where
  op : String
  key : String
  value : String
deriving DecidableEq, Repr

/-- `isValidOp`. -/
def isValidOp (op : String) : Bool := op == "put" || op == "swap" || op == "delete"

/-- `applyCommand`: `put` and `swap` are `ReplaceOrInsert`, `delete` is
`Delete`; what the tree returns is discarded. -/
def applyCommand (t : BTree) (cmd : WalCommand) : BTree :=
  if cmd.op = "put" ∨ cmd.op = "swap" then (t.replaceOrInsert ⟨cmd.key, cmd.value⟩).2
  else if cmd.op = "delete" then (t.delete cmd.key).2
  else t

/-- The tree after applying a sequence of commands in order. -/
def applyAll (t : BTree) (cs : List WalCommand) : BTree := cs.foldl applyCommand t

@[simp] theorem applyAll_nil (t : BTree) : applyAll t [] = t := rfl

@[simp] theorem applyAll_append (t : BTree) (cs ds : List WalCommand) :
    applyAll t (cs ++ ds) = applyAll (applyAll t cs) ds :=
  List.foldl_append _ _ _ _

@[simp] theorem applyAll_cons (t : BTree) (c : WalCommand) (cs : List WalCommand) :
    applyAll t (c :: cs) = applyAll (applyCommand t c) cs := rfl

/-- What a command does to the map the tree stands for. -/
theorem toMap_applyCommand (t : BTree) (cmd : WalCommand) :
    (applyCommand t cmd).toMap =
      if cmd.op = "put" ∨ cmd.op = "swap" then Function.update t.toMap cmd.key (some cmd.value)
      else if cmd.op = "delete" then Function.update t.toMap cmd.key none
      else t.toMap := by
  unfold applyCommand
  split_ifs <;> simp [BTree.toMap_replaceOrInsert, BTree.toMap_delete]

end KVStore.File
