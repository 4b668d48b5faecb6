/-
# `KVStore.Sqlite.Wire` — the protobuf wire format, as far as `WALCommand` needs it

The pieces of `google.golang.org/protobuf` that `proto.Marshal` and
`proto.Unmarshal` use on a message of one enum and two string fields:
varints (`protowire.AppendVarint`, and `ConsumeVarint` with its ten-byte
bound), tags, length-delimited bytes, and the skipping of a field the message
does not know (`ConsumeFieldValue`, groups included).  Each reader is stated
against its writer with any bytes after it (`consumeVarint_appendVarint`,
`consumeBytes_appendBytes`), so that the message round trip in
`KVStore.Sqlite.Command` can chain them.
-/
import KVStore.GoString

namespace KVStore.Sqlite

/-- `protowire.AppendVarint` with at most `fuel` bytes: seven bits at a time,
low first, the high bit set on every byte but the last. -/
def varintBytes : Nat → Nat → List UInt8
  | 0, _ => []
  | fuel + 1, v =>
    if v < 0x80 then [UInt8.ofNat v] else UInt8.ofNat (v % 0x80 + 0x80) :: varintBytes fuel (v / 0x80)

/-- `protowire.AppendVarint` of a `uint64`, which takes ten bytes at most. -/
def appendVarint (v : Nat) : List UInt8 := varintBytes 10 v

/-- `protowire.ConsumeVarint` from the `i`-th byte of a varint on: the value of
the bytes from there, and what follows them.  The tenth byte may only carry the
top bit of a `uint64`; running out of bytes is an error. -/
def consumeVarintFrom (i : Nat) : List UInt8 → Option (Nat × List UInt8)
  | [] => none
  | b :: bs =>
    if i = 9 then if b.toNat < 2 then some (b.toNat, bs) else none
    else if b.toNat < 0x80 then some (b.toNat, bs)
    else (consumeVarintFrom (i + 1) bs).map fun r => (b.toNat - 0x80 + 0x80 * r.1, r.2)

/-- `protowire.ConsumeVarint`. -/
def consumeVarint (bs : List UInt8) : Option (Nat × List UInt8) := consumeVarintFrom 0 bs

/-- `protowire.AppendTag`: the varint of `num << 3 | typ`. -/
def appendTag (num typ : Nat) : List UInt8 := appendVarint (num * 8 + typ)

/-- `protowire.AppendBytes`: the length as a varint, then the bytes. -/
def appendBytes (b : List UInt8) : List UInt8 := appendVarint b.length ++ b

/-- `protowire.ConsumeBytes`. -/
def consumeBytes (bs : List UInt8) : Option (List UInt8 × List UInt8) :=
  (consumeVarint bs).bind fun r =>
    if r.1 ≤ r.2.length then some (r.2.take r.1, r.2.drop r.1) else none

/-- `protowire.ConsumeTag`: the field number and the wire type.  A field
number of 0, or past `math.MaxInt32`, is an error. -/
def consumeTag (bs : List UInt8) : Option (Nat × Nat × List UInt8) :=
  (consumeVarint bs).bind fun r =>
    if r.1 / 8 = 0 ∨ 0x7FFFFFFF < r.1 / 8 then none else some (r.1 / 8, r.1 % 8, r.2)

/-- What follows a value of wire type varint, fixed64, bytes or fixed32. -/
def consumeScalar (typ : Nat) (bs : List UInt8) : Option (List UInt8) :=
  match typ with
  | 0 => (consumeVarint bs).map (·.2)
  | 1 => if 8 ≤ bs.length then some (bs.drop 8) else none
  | 2 => (consumeBytes bs).map (·.2)
  | 5 => if 4 ≤ bs.length then some (bs.drop 4) else none
  | _ => none

/-- The body of a group of field number `num`, up to and past its end-group
tag: `consumeFieldValueD` on a start-group, which refuses to nest more than
`depth` groups further.  Every field takes a byte, so the input's length is
enough `fuel`. -/
def skipGroup : Nat → Nat → Nat → List UInt8 → Option (List UInt8)
  | 0, _, _, _ => none
  | fuel + 1, depth, num, bs =>
    match consumeTag bs with
    | none => none
    | some (num', typ, rest) =>
      if typ = 4 then if num' = num then some rest else none
      else if typ = 3 then
        if depth = 0 then none
        else (skipGroup fuel (depth - 1) num' rest).bind (skipGroup fuel depth num)
      else (consumeScalar typ rest).bind (skipGroup fuel depth num)

/-- `protowire.ConsumeFieldValue`, with `DefaultRecursionLimit` for groups: what
follows the value of a field the message does not know. -/
def consumeFieldValue (num typ : Nat) (bs : List UInt8) : Option (List UInt8) :=
  if typ = 3 then skipGroup (bs.length + 1) 10000 num bs
  else if typ = 4 then none
  else consumeScalar typ bs

/-! ## Readers against writers -/

theorem consumeVarintFrom_length {i : Nat} {bs rest : List UInt8} {v : Nat}
    (h : consumeVarintFrom i bs = some (v, rest)) : rest.length < bs.length := by
  induction bs generalizing i v with
  | nil => cases h
  | cons b bs ih =>
      simp only [consumeVarintFrom] at h
      split_ifs at h
      · cases h; simp
      · cases h; simp
      · obtain ⟨r, hr, hv⟩ := Option.map_eq_some'.1 h
        cases hv
        have := ih hr
        simp only [List.length_cons]
        omega

/-- Ten bytes read back any `uint64`; from the `9 - k`-th byte on, `k + 1`
bytes read back what is below `2 ^ (7k + 1)`. -/
theorem consumeVarintFrom_varintBytes (rest : List UInt8) :
    ∀ k ≤ 9, ∀ v, v < 1 <<< (7 * k + 1) →
      consumeVarintFrom (9 - k) (varintBytes (k + 1) v ++ rest) = some (v, rest) := by
  intro k
  induction k with
  | zero =>
      intro _ v hv
      have hv2 : v < 2 := hv
      have hv7 : v < 0x80 := by omega
      simp (disch := omega) [varintBytes, consumeVarintFrom, toNat_ofNat_of_lt, hv2, hv7]
  | succ k ih =>
      intro hk v hv
      rw [Nat.one_shiftLeft] at hv
      by_cases hv7 : v < 0x80
      · simp (disch := omega) [varintBytes, consumeVarintFrom, toNat_ofNat_of_lt, hv7]
        omega
      · have hv' : v / 0x80 < 1 <<< (7 * k + 1) := by
          rw [Nat.one_shiftLeft, Nat.div_lt_iff_lt_mul (by decide)]
          calc v < 2 ^ (7 * (k + 1) + 1) := hv
            _ = 2 ^ (7 * k + 1) * 2 ^ 7 := by rw [← Nat.pow_add]; congr 1
        have hr := ih (by omega) (v / 0x80) hv'
        rw [show 9 - k = 9 - (k + 1) + 1 by omega] at hr
        have hb : (UInt8.ofNat (v % 0x80 + 0x80)).toNat = v % 0x80 + 0x80 :=
          toNat_ofNat_of_lt (by omega)
        rw [varintBytes, if_neg hv7, List.cons_append, consumeVarintFrom, if_neg (by omega), hb,
          if_neg (by omega), hr, Option.map_some', Option.some.injEq, Prod.mk.injEq]
        simp only [and_true]
        omega

theorem consumeVarint_appendVarint {v : Nat} (hv : v < 0x10000000000000000) (rest : List UInt8) :
    consumeVarint (appendVarint v ++ rest) = some (v, rest) :=
  consumeVarintFrom_varintBytes rest 9 le_rfl v hv

theorem consumeBytes_appendBytes {b : List UInt8} (hb : b.length < 0x10000000000000000)
    (rest : List UInt8) : consumeBytes (appendBytes b ++ rest) = some (b, rest) := by
  simp [consumeBytes, appendBytes, consumeVarint_appendVarint hb]

theorem consumeBytes_length {bs b rest : List UInt8} (h : consumeBytes bs = some (b, rest)) :
    rest.length < bs.length := by
  simp only [consumeBytes, Option.bind_eq_some] at h
  obtain ⟨⟨n, r⟩, hv, h⟩ := h
  split_ifs at h
  cases h
  have := consumeVarintFrom_length hv
  simp only [List.length_drop]
  omega

theorem consumeVarint_length {bs rest : List UInt8} {v : Nat}
    (h : consumeVarint bs = some (v, rest)) : rest.length < bs.length :=
  consumeVarintFrom_length h

theorem consumeTag_length {bs rest : List UInt8} {num typ : Nat}
    (h : consumeTag bs = some (num, typ, rest)) : rest.length < bs.length := by
  simp only [consumeTag, Option.bind_eq_some] at h
  obtain ⟨⟨v, r⟩, hv, h⟩ := h
  split_ifs at h
  cases h
  exact consumeVarint_length hv

theorem consumeScalar_length {typ : Nat} {bs rest : List UInt8}
    (h : consumeScalar typ bs = some rest) : rest.length ≤ bs.length := by
  unfold consumeScalar at h
  split at h
  · obtain ⟨⟨v, r⟩, hv, rfl⟩ := Option.map_eq_some'.1 h
    exact (consumeVarint_length hv).le
  · split_ifs at h; cases h; simp
  · obtain ⟨⟨b, r⟩, hb, rfl⟩ := Option.map_eq_some'.1 h
    exact (consumeBytes_length hb).le
  · split_ifs at h; cases h; simp
  · cases h

theorem skipGroup_length {fuel depth num : Nat} {bs rest : List UInt8}
    (h : skipGroup fuel depth num bs = some rest) : rest.length ≤ bs.length := by
  induction fuel generalizing depth num bs rest with
  | zero => cases h
  | succ fuel ih =>
      simp only [skipGroup] at h
      split at h
      · cases h
      · rename_i num' typ r hr
        have hr' := consumeTag_length hr
        split_ifs at h
        · cases h; omega
        · obtain ⟨r', h1, h2⟩ := Option.bind_eq_some.1 h
          have := ih h1
          have := ih h2
          omega
        · obtain ⟨r', h1, h2⟩ := Option.bind_eq_some.1 h
          have := consumeScalar_length h1
          have := ih h2
          omega

theorem consumeFieldValue_length {num typ : Nat} {bs rest : List UInt8}
    (h : consumeFieldValue num typ bs = some rest) : rest.length ≤ bs.length := by
  unfold consumeFieldValue at h
  split_ifs at h
  exacts [skipGroup_length h, consumeScalar_length h]

end KVStore.Sqlite
