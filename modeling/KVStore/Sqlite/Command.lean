/-
# `KVStore.Sqlite.Command` — `kvpb.WALCommand`, and its protobuf round trip

The SQLite server logs each mutation as a `kvpb.WALCommand` (an enum `op`, a
`key` and a `value`) encoded with `proto.Marshal`.  The `.proto` file that
numbers its fields and its enum values is not in the repository, so the model
takes those numbers as a parameter (`Schema`), constrained only as `protoc`
constrains them.  `proto.Marshal` writes the fields in order of their numbers
and leaves out those holding the zero value; `proto.Unmarshal` reads fields in
any order, checks strings are UTF-8, and skips fields it does not know.

`unmarshal_marshal` is the round trip, for every schema and every command
`appendLog` accepts: each field is read back on its own (`unmarshalFields_field`),
and since the fields set different parts of the message, the order
`proto.Marshal` sorts them into does not matter (`readBack_comm`).
-/
import KVStore.Sqlite.Wire
import KVStore.Index

namespace KVStore.Sqlite

/-- The numbers of `kvstore.proto` for `WALCommand`: its three field numbers
and the values of `OP_PUT`, `OP_SWAP` and `OP_DELETE`. -/
structure Schema where
  opField : Nat
  keyField : Nat
  valueField : Nat
  opPut : Int
  opSwap : Int
  opDelete : Int
  fields_pos : 0 < opField ∧ 0 < keyField ∧ 0 < valueField
  fields_le : opField ≤ 0x1FFFFFFF ∧ keyField ≤ 0x1FFFFFFF ∧ valueField ≤ 0x1FFFFFFF
  fields_ne : opField ≠ keyField ∧ opField ≠ valueField ∧ keyField ≠ valueField
  ops_ne : opPut ≠ opSwap ∧ opPut ≠ opDelete ∧ opSwap ≠ opDelete
  ops_int32 : ∀ op ∈ [opPut, opSwap, opDelete], -0x80000000 ≤ op ∧ op < 0x80000000

/-- A numbering `protoc` accepts: the fields `op = 1`, `key = 2`, `value = 3`,
and `OP_PUT = 1`, `OP_SWAP = 2`, `OP_DELETE = 3`. -/
def Schema.sample : Schema where
  opField := 1
  keyField := 2
  valueField := 3
  opPut := 1
  opSwap := 2
  opDelete := 3
  fields_pos := by decide
  fields_le := by decide
  fields_ne := by decide
  ops_ne := by decide
  ops_int32 := by decide

/-- `kvpb.WALCommand`; `op` is an `int32` enum value. -/
structure WALCommand where
  op : Int
  key : String
  value : String
deriving DecidableEq, Repr

/-- `isValidOp`. -/
def isValidOp (sc : Schema) (op : Int) : Bool := op == sc.opPut || op == sc.opSwap || op == sc.opDelete

/-- `applyCommand`: `OP_PUT` and `OP_SWAP` are `ReplaceOrInsert`, `OP_DELETE` is
`Delete`. -/
def applyCommand (sc : Schema) (t : BTree) (cmd : WALCommand) : BTree :=
  if cmd.op = sc.opPut ∨ cmd.op = sc.opSwap then (t.replaceOrInsert ⟨cmd.key, cmd.value⟩).2
  else if cmd.op = sc.opDelete then (t.delete cmd.key).2
  else t

/-- The tree after applying a sequence of commands in order. -/
def applyAll (sc : Schema) (t : BTree) (cs : List WALCommand) : BTree :=
  cs.foldl (applyCommand sc) t

/-- A command `appendLog` accepts, with strings Go can hold (a length is an
`int`). -/
def Fits (sc : Schema) (cmd : WALCommand) : Prop :=
  isValidOp sc cmd.op ∧ (goBytes cmd.key).length < 0x8000000000000000 ∧
    (goBytes cmd.value).length < 0x8000000000000000

/-! ## Encoding -/

/-- `uint64(int64(v))`: how an `int32` enum value is written as a varint. -/
def uint64OfInt (v : Int) : Nat := (v % 0x10000000000000000).toNat

/-- `int32(v)`: how a varint is read into an enum field. -/
def toInt32 (v : Nat) : Int :=
  if v % 0x100000000 < 0x80000000 then (v % 0x100000000 : Nat)
  else ((v % 0x100000000 : Nat) : Int) - 0x100000000

/-- An enum field; proto3 leaves out the zero value. -/
def enumField (num : Nat) (v : Int) : List UInt8 :=
  if v = 0 then [] else appendTag num 0 ++ appendVarint (uint64OfInt v)

/-- A string field; proto3 leaves out the empty string. -/
def stringField (num : Nat) (s : String) : List UInt8 :=
  if s = "" then [] else appendTag num 2 ++ appendBytes (goBytes s)

/-- The fields of a command, with their numbers. -/
def fields (sc : Schema) (cmd : WALCommand) : List (Nat × List UInt8) :=
  [(sc.opField, enumField sc.opField cmd.op), (sc.keyField, stringField sc.keyField cmd.key),
    (sc.valueField, stringField sc.valueField cmd.value)]

/-- `proto.Marshal`: the fields in order of their numbers.  (It fails only on
a string that is not UTF-8, which a `String` cannot be.) -/
def marshal (sc : Schema) (cmd : WALCommand) : List UInt8 :=
  ((fields sc cmd).mergeSort fun a b => decide (a.1 ≤ b.1)).flatMap (·.2)

/-! ## Decoding -/

/-- What reading one field does. -/
inductive FieldRead where
  | read (acc : WALCommand) (rest : List UInt8)
  | unknown
  | invalid

/-- A string field's bytes: `consumeStringValidateUTF8`. -/
def readString (bs : List UInt8) : Option (String × List UInt8) :=
  (consumeBytes bs).bind fun r => (runesOf r.1).map fun cs => (⟨cs⟩, r.2)

/-- A field numbered `num` of wire type `typ` of `WALCommand`: a known field
of the wrong wire type is treated as unknown. -/
def readField (sc : Schema) (num typ : Nat) (acc : WALCommand) (bs : List UInt8) : FieldRead :=
  if num = sc.opField ∧ typ = 0 then
    match consumeVarint bs with
    | none => .invalid
    | some (v, rest) => .read { acc with op := toInt32 v } rest
  else if num = sc.keyField ∧ typ = 2 then
    match readString bs with
    | none => .invalid
    | some (s, rest) => .read { acc with key := s } rest
  else if num = sc.valueField ∧ typ = 2 then
    match readString bs with
    | none => .invalid
    | some (s, rest) => .read { acc with value := s } rest
  else .unknown

theorem readField_length {sc : Schema} {num typ : Nat} {acc acc' : WALCommand}
    {bs rest : List UInt8} (h : readField sc num typ acc bs = .read acc' rest) :
    rest.length ≤ bs.length := by
  have hs : ∀ {s r}, readString bs = some (s, r) → r.length ≤ bs.length := by
    intro s r h
    simp only [readString, Option.bind_eq_some, Option.map_eq_some'] at h
    obtain ⟨⟨b, r'⟩, hb, cs, -, he⟩ := h
    cases he
    exact (consumeBytes_length hb).le
  unfold readField at h
  split_ifs at h <;> split at h <;> cases h
  · exact (consumeVarint_length ‹_›).le
  · exact hs ‹_›
  · exact hs ‹_›

/-- `proto.Unmarshal` into `acc`, field by field: a tag whose number is within
`1 ..= MaxValidNumber` and is not an end-group, then its value. -/
def unmarshalFields (sc : Schema) (acc : WALCommand) (bs : List UInt8) : Option WALCommand :=
  match h : consumeVarint bs with
  | none => if bs = [] then some acc else none
  | some (tag, rest) =>
    if tag / 8 = 0 ∨ 0x1FFFFFFF < tag / 8 ∨ tag % 8 = 4 then none
    else
      match h' : readField sc (tag / 8) (tag % 8) acc rest with
      | .invalid => none
      | .read acc' rest' => unmarshalFields sc acc' rest'
      | .unknown =>
        match h'' : consumeFieldValue (tag / 8) (tag % 8) rest with
        | none => none
        | some rest' => unmarshalFields sc acc rest'
termination_by bs.length
decreasing_by
  · have := consumeVarint_length h
    have := readField_length h'
    omega
  · have := consumeVarint_length h
    have := consumeFieldValue_length h''
    omega

/-- `proto.Unmarshal` of a `WALCommand`. -/
def unmarshal (sc : Schema) (payload : List UInt8) : Option WALCommand :=
  unmarshalFields sc ⟨0, "", ""⟩ payload

/-- `unmarshalFields` one field at a time, without the proofs of termination. -/
theorem unmarshalFields_eq (sc : Schema) (acc : WALCommand) (bs : List UInt8) :
    unmarshalFields sc acc bs =
      match consumeVarint bs with
      | none => if bs = [] then some acc else none
      | some (tag, rest) =>
        if tag / 8 = 0 ∨ 0x1FFFFFFF < tag / 8 ∨ tag % 8 = 4 then none
        else
          match readField sc (tag / 8) (tag % 8) acc rest with
          | .invalid => none
          | .read acc' rest' => unmarshalFields sc acc' rest'
          | .unknown =>
            match consumeFieldValue (tag / 8) (tag % 8) rest with
            | none => none
            | some rest' => unmarshalFields sc acc rest' := by
  rw [unmarshalFields]
  split <;> rename_i heq <;> simp only [heq]
  split_ifs <;> try rfl
  split <;> rename_i heq' <;> simp only [heq']
  split <;> rename_i heq'' <;> simp only [heq'']

/-! ## The round trip -/

theorem toInt32_uint64OfInt {v : Int} (h : -0x80000000 ≤ v ∧ v < 0x80000000) :
    toInt32 (uint64OfInt v) = v := by
  unfold toInt32 uint64OfInt
  split_ifs <;> omega

theorem uint64OfInt_lt (v : Int) : uint64OfInt v < 0x10000000000000000 := by
  unfold uint64OfInt
  omega

theorem appendVarint_ne_nil (v : Nat) : appendVarint v ≠ [] := by
  unfold appendVarint varintBytes
  split_ifs <;> simp

theorem readString_appendBytes {s : String} (hs : (goBytes s).length < 0x8000000000000000)
    (rest : List UInt8) : readString (appendBytes (goBytes s) ++ rest) = some (s, rest) := by
  simp [readString, consumeBytes_appendBytes (show (goBytes s).length < 0x10000000000000000 by omega),
    runesOf_goBytes]

section RoundTrip

variable {sc : Schema}

/-- A tag within range followed by a field that reads: `unmarshalFields` goes
on after it. -/
theorem unmarshalFields_read {acc acc' : WALCommand} {num typ : Nat} {rest rest' : List UInt8}
    (hn : 0 < num ∧ num ≤ 0x1FFFFFFF) (ht : typ < 8 ∧ typ ≠ 4)
    (hr : readField sc num typ acc rest = .read acc' rest') :
    unmarshalFields sc acc (appendTag num typ ++ rest) = unmarshalFields sc acc' rest' := by
  have e1 : (num * 8 + typ) / 8 = num := by omega
  have e2 : (num * 8 + typ) % 8 = typ := by omega
  rw [unmarshalFields_eq, appendTag, consumeVarint_appendVarint (by omega)]
  dsimp only
  rw [if_neg (by omega), e1, e2, hr]

theorem unmarshalFields_op (acc : WALCommand) {v : Int}
    (hv : -0x80000000 ≤ v ∧ v < 0x80000000) (rest : List UInt8) :
    unmarshalFields sc acc (enumField sc.opField v ++ rest) =
      unmarshalFields sc (if v = 0 then acc else { acc with op := v }) rest := by
  unfold enumField
  split_ifs with h
  · rfl
  · rw [List.append_assoc, unmarshalFields_read ⟨sc.fields_pos.1, sc.fields_le.1⟩ (by decide)]
    rw [readField, if_pos ⟨rfl, rfl⟩, consumeVarint_appendVarint (uint64OfInt_lt v)]
    dsimp only
    rw [toInt32_uint64OfInt hv]

theorem unmarshalFields_key (acc : WALCommand) {s : String}
    (hs : (goBytes s).length < 0x8000000000000000) (rest : List UInt8) :
    unmarshalFields sc acc (stringField sc.keyField s ++ rest) =
      unmarshalFields sc (if s = "" then acc else { acc with key := s }) rest := by
  unfold stringField
  split_ifs with h
  · rfl
  · rw [List.append_assoc, unmarshalFields_read ⟨sc.fields_pos.2.1, sc.fields_le.2.1⟩ (by decide)]
    rw [readField, if_neg (by simp), if_pos ⟨rfl, rfl⟩, readString_appendBytes hs]

theorem unmarshalFields_value (acc : WALCommand) {s : String}
    (hs : (goBytes s).length < 0x8000000000000000) (rest : List UInt8) :
    unmarshalFields sc acc (stringField sc.valueField s ++ rest) =
      unmarshalFields sc (if s = "" then acc else { acc with value := s }) rest := by
  unfold stringField
  split_ifs with h
  · rfl
  · rw [List.append_assoc, unmarshalFields_read ⟨sc.fields_pos.2.2, sc.fields_le.2.2⟩ (by decide)]
    rw [readField, if_neg (by simp), if_neg (by simp [sc.fields_ne.2.2.symm]), if_pos ⟨rfl, rfl⟩,
      readString_appendBytes hs]

theorem unmarshalFields_nil (acc : WALCommand) : unmarshalFields sc acc [] = some acc := by
  rw [unmarshalFields_eq]
  rfl

theorem int32_of_isValidOp {op : Int} (h : isValidOp sc op) :
    -0x80000000 ≤ op ∧ op < 0x80000000 := by
  apply sc.ops_int32
  simpa [isValidOp, or_assoc] using h

theorem enumField_eq_nil {num : Nat} {v : Int} : enumField num v = [] ↔ v = 0 := by
  unfold enumField appendTag
  split_ifs with h <;> simp [h, appendVarint_ne_nil]

theorem stringField_eq_nil {num : Nat} {s : String} : stringField num s = [] ↔ s = "" := by
  unfold stringField appendTag
  split_ifs with h <;> simp [h, appendVarint_ne_nil]

/-- What reading back a field of `fields sc cmd` does to the message being
decoded: nothing for a field `proto.Marshal` left out, and otherwise that field
becomes `cmd`'s. -/
def readBack (sc : Schema) (cmd acc : WALCommand) (e : Nat × List UInt8) : WALCommand :=
  if e.2 = [] then acc
  else if e.1 = sc.opField then { acc with op := cmd.op }
  else if e.1 = sc.keyField then { acc with key := cmd.key }
  else { acc with value := cmd.value }

/-- Every field of a command `appendLog` accepts reads back. -/
theorem unmarshalFields_field {cmd : WALCommand} (hc : Fits sc cmd) (acc : WALCommand)
    {e : Nat × List UInt8} (he : e ∈ fields sc cmd) (rest : List UInt8) :
    unmarshalFields sc acc (e.2 ++ rest) = unmarshalFields sc (readBack sc cmd acc e) rest := by
  obtain ⟨hok, hov, hkv⟩ := sc.fields_ne
  simp only [fields, List.mem_cons, List.mem_singleton, List.not_mem_nil, or_false] at he
  rcases he with rfl | rfl | rfl
  · rw [unmarshalFields_op acc (int32_of_isValidOp hc.1)]
    simp [readBack, enumField_eq_nil]
  · rw [unmarshalFields_key acc hc.2.1]
    simp [readBack, stringField_eq_nil, Ne.symm hok]
  · rw [unmarshalFields_value acc hc.2.2]
    simp [readBack, stringField_eq_nil, Ne.symm hov, Ne.symm hkv]

theorem unmarshalFields_flatMap {cmd : WALCommand} (hc : Fits sc cmd) (acc : WALCommand)
    {l : List (Nat × List UInt8)} (hl : ∀ e ∈ l, e ∈ fields sc cmd) (rest : List UInt8) :
    unmarshalFields sc acc (l.flatMap (·.2) ++ rest) =
      unmarshalFields sc (l.foldl (readBack sc cmd) acc) rest := by
  induction l generalizing acc with
  | nil => rfl
  | cons e l ih =>
      rw [List.flatMap_cons, List.append_assoc, unmarshalFields_field hc acc (hl e (.head _)),
        ih _ fun x hx => hl x (.tail _ hx)]
      rfl

/-- The fields set different parts of the message, so they read back in any
order. -/
theorem readBack_comm (cmd : WALCommand) {x y : Nat × List UInt8} (hx : x ∈ fields sc cmd)
    (hy : y ∈ fields sc cmd) (acc : WALCommand) :
    readBack sc cmd (readBack sc cmd acc x) y = readBack sc cmd (readBack sc cmd acc y) x := by
  obtain ⟨hok, hov, hkv⟩ := sc.fields_ne
  simp only [fields, List.mem_cons, List.mem_singleton, List.not_mem_nil, or_false] at hx hy
  rcases hx with rfl | rfl | rfl <;> rcases hy with rfl | rfl | rfl <;>
    simp only [readBack, if_true, Ne.symm hok, Ne.symm hov, Ne.symm hkv, if_false] <;>
    split_ifs <;> rfl

theorem foldl_readBack_fields (cmd : WALCommand) :
    (fields sc cmd).foldl (readBack sc cmd) ⟨0, "", ""⟩ = cmd := by
  obtain ⟨hok, hov, hkv⟩ := sc.fields_ne
  obtain ⟨op, key, value⟩ := cmd
  simp only [fields, List.foldl, readBack, enumField_eq_nil, stringField_eq_nil, if_true,
    Ne.symm hok, Ne.symm hov, Ne.symm hkv, if_false]
  split_ifs <;> simp_all

/-- The protobuf round trip: `proto.Unmarshal` reads back what `proto.Marshal`
wrote for every command `appendLog` accepts, whatever the schema. -/
theorem unmarshal_marshal {cmd : WALCommand} (hc : Fits sc cmd) :
    unmarshal sc (marshal sc cmd) = some cmd := by
  have hp := List.mergeSort_perm (fields sc cmd) fun a b => decide (a.1 ≤ b.1)
  rw [unmarshal, marshal, ← List.append_nil (List.flatMap _ _),
    unmarshalFields_flatMap hc _ (fun e he => hp.subset he),
    hp.foldl_eq' (fun x hx y hy z => readBack_comm cmd (hp.subset hx) (hp.subset hy) z),
    foldl_readBack_fields, unmarshalFields_nil]

end RoundTrip

end KVStore.Sqlite
