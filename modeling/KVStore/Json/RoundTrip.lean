/-
# `KVStore.Json.RoundTrip` — `json.Unmarshal` reads back what `json.Marshal` wrote

For every `walCommand` whose strings are valid UTF-8 — every `String` is — the
payload `appendWAL` writes decodes to the same command (`unmarshal_marshal`).
That is the half of the file-backed log's round trip that lives inside one
frame; `KVStore.File.Wal` does the framing.

The proof follows the encoder.  `stringStep_escapeRune` is the one real case
analysis: each of `escapeRune`'s ten branches is read back by one step of the
string scanner, the multi-byte branch through `decodeRune_encodeRune`.  A whole
string literal is then read by induction (`parseString_escape`), and the
object by three applications of the member lemmas, each of which needs the
value parser only through its behaviour on a quoted string.
-/
import KVStore.Json.Decode

namespace KVStore.Json

open KVStore.File

/-! ## One character -/

theorem hexVal_hexDigit {d : Nat} (h : d < 16) : hexVal (hexDigit d) = some d := by
  unfold hexDigit
  split_ifs with hd
  · simp (disch := omega) only [hexVal, toNat_ofNat_of_lt, if_pos]
    congr 1; omega
  · simp (disch := omega) only [hexVal, toNat_ofNat_of_lt, if_pos, if_neg]
    congr 1; omega

/-- `\u` and the four digits `json.Marshal` writes for a code point below
U+10000. -/
theorem hex4_digits {a b c d : Nat} (ha : a < 16) (hb : b < 16) (hc : c < 16) (hd : d < 16)
    (rest : List UInt8) :
    hex4 (hexDigit a :: hexDigit b :: hexDigit c :: hexDigit d :: rest) =
      some (((a * 16 + b) * 16 + c) * 16 + d, rest) := by
  simp [hex4, hexVal_hexDigit, ha, hb, hc, hd]

theorem stringStep_backslash (rest : List UInt8) :
    stringStep (0x5C :: rest) = (escapeStep rest).map fun p => (some p.1, p.2) := rfl

theorem escapeStep_u (rest : List UInt8) :
    escapeStep (0x75 :: rest) = (hex4 rest).map fun p => unicodeEscape p.1 p.2 := rfl

theorem unicodeEscape_of_lt {u : Nat} (h : u < 0xD800) (rest : List UInt8) :
    unicodeEscape u rest = (Char.ofNat u, rest) := by
  simp [unicodeEscape, show ¬ 0xD800 ≤ u by omega]

/-- The six bytes `\u` and four digits of a code point below U+D800 read back
as that code point. -/
theorem stringStep_u {a b c d : Nat} (ha : a < 16) (hb : b < 16) (hc : c < 16) (hd : d < 16)
    (hu : ((a * 16 + b) * 16 + c) * 16 + d < 0xD800) (rest : List UInt8) :
    stringStep (0x5C :: 0x75 :: hexDigit a :: hexDigit b :: hexDigit c :: hexDigit d :: rest) =
      some (some (Char.ofNat (((a * 16 + b) * 16 + c) * 16 + d)), rest) := by
  rw [stringStep_backslash, escapeStep_u, hex4_digits ha hb hc hd, Option.map_some',
    Option.map_some', unicodeEscape_of_lt hu]

/-- The scanner on what one branch or the other of an `if` wrote. -/
theorem stringStep_ite_append {p : Prop} [Decidable p] {x y rest : List UInt8}
    {r : Option (Option Char × List UInt8)} (hx : p → stringStep (x ++ rest) = r)
    (hy : ¬p → stringStep (y ++ rest) = r) : stringStep ((if p then x else y) ++ rest) = r := by
  split
  exacts [hx ‹_›, hy ‹_›]

theorem stringStep_escapeRune (c : Char) (rest : List UInt8) :
    stringStep (escapeRune c ++ rest) = some (some c, rest) := by
  have hc := Char.ofNat_toNat c
  unfold escapeRune
  dsimp only
  repeat' (with_reducible apply stringStep_ite_append <;> intro)
  -- the five control characters with a short escape
  any_goals (rw [← hc, ‹c.toNat = _›]; rfl)
  · rename_i h1 h2
    simp only [htmlSafe, Bool.and_eq_true, decide_eq_true_eq, bne_iff_ne, ne_eq] at h2
    simp (disch := omega) only [stringStep, List.singleton_append, toNat_ofNat_of_lt, if_neg,
      hc, h1, if_true]
  · rcases ‹_ ∨ _› with h | h <;> rw [← hc, h] <;> rfl
  · have := @stringStep_u 0 0 (c.toNat / 16) (c.toNat % 16)
      (by omega) (by omega) (by omega) (by omega) (by omega) rest
    rw [show ((0 * 16 + 0) * 16 + c.toNat / 16) * 16 + c.toNat % 16 = c.toNat by omega, hc]
      at this
    exact this
  · rcases ‹_ ∨ _› with h | h <;> rw [← hc, h] <;> rfl
  · obtain ⟨b, bs, hbs, hb⟩ := encodeRune_head_of_ge (show 0x80 ≤ c.toNat by omega)
    have hdec := decodeRune_encodeRune c rest
    rw [hbs, List.cons_append] at hdec
    rw [hbs, List.cons_append]
    simp (disch := omega) only [stringStep, if_neg, hdec]
    simp

/-! ## A string literal -/

theorem stringStep_quote (rest : List UInt8) : stringStep (0x22 :: rest) = some (none, rest) :=
  rfl

theorem parseString_escape (rest : List UInt8) :
    ∀ (cs acc : List Char),
      parseString acc (cs.flatMap escapeRune ++ 0x22 :: rest) = some (⟨acc.reverse ++ cs⟩, rest)
  | [], acc => by
      rw [parseString_eq, List.flatMap_nil, List.nil_append, stringStep_quote, List.append_nil]
  | c :: cs, acc => by
      rw [parseString_eq, List.flatMap_cons, List.append_assoc, stringStep_escapeRune]
      simp only
      rw [parseString_escape rest cs (c :: acc)]
      simp

theorem parseValue_string (n : Nat) (bs : List UInt8) :
    parseValue (n + 1) (0x22 :: bs) = (parseString [] bs).map fun p => (.string p.1, p.2) :=
  rfl

theorem parseValue_quote (n : Nat) (s : String) (rest : List UInt8) :
    parseValue (n + 1) (quote s ++ rest) = some (.string s, rest) := by
  rw [quote, List.cons_append, parseValue_string, List.append_assoc, List.singleton_append,
    parseString_escape]
  rfl

/-! ## The object -/

theorem skipSpace_quote (s : String) (rest : List UInt8) :
    skipSpace (quote s ++ rest) = quote s ++ rest := rfl

theorem quote_member (k v : String) (rest : List UInt8) :
    quote k ++ 0x3A :: (quote v ++ rest) =
      0x22 :: (k.data.flatMap escapeRune ++ 0x22 :: 0x3A :: (quote v ++ rest)) := by
  simp [quote]

theorem skipSpace_cons {b : UInt8} (h : isSpace b = false) (bs : List UInt8) :
    skipSpace (b :: bs) = b :: bs := by
  simp [skipSpace, h]

/-- A member `"k":"v"` followed by `,`. -/
theorem parseMembers_comma {pv : List UInt8 → Option (JsonValue × List UInt8)} {v : String}
    (hpv : ∀ r, pv (quote v ++ r) = some (.string v, r)) (n : Nat)
    (acc : List (String × JsonValue)) (k : String) (rest : List UInt8) :
    parseMembers pv (n + 1) acc (quote k ++ 0x3A :: (quote v ++ 0x2C :: rest)) =
      parseMembers pv n ((k, .string v) :: acc) (skipSpace rest) := by
  rw [quote_member]
  simp (disch := decide) only [parseMembers, parseString_escape, skipSpace_cons, skipSpace_quote,
    hpv, UInt8.reduceToNat, Nat.reduceEqDiff, ↓reduceIte, List.reverse_nil, List.nil_append]

/-- A last member `"k":"v"` followed by `}`. -/
theorem parseMembers_close {pv : List UInt8 → Option (JsonValue × List UInt8)} {v : String}
    (hpv : ∀ r, pv (quote v ++ r) = some (.string v, r)) (n : Nat)
    (acc : List (String × JsonValue)) (k : String) (rest : List UInt8) :
    parseMembers pv (n + 1) acc (quote k ++ 0x3A :: (quote v ++ 0x7D :: rest)) =
      some (((k, .string v) :: acc).reverse, rest) := by
  rw [quote_member]
  simp (disch := decide) only [parseMembers, parseString_escape, skipSpace_cons, skipSpace_quote,
    hpv, UInt8.reduceToNat, Nat.reduceEqDiff, ↓reduceIte, List.reverse_nil, List.nil_append]

/-- An object whose first member's key opens at once. -/
theorem parseValue_object (n : Nat) (s : String) (bs : List UInt8) :
    parseValue (n + 1) (0x7B :: (quote s ++ bs)) =
      (parseMembers (parseValue n) n [] (quote s ++ bs)).map fun p => (.object p.1, p.2) := rfl

/-- The object `json.Marshal` writes for `cmd`, read back member by member. -/
theorem parseValue_marshal (n : Nat) (cmd : WalCommand) (rest : List UInt8) :
    parseValue (n + 4) (marshal cmd ++ rest) =
      some (.object ([("op", .string cmd.op), ("key", .string cmd.key)] ++
        if cmd.value = "" then [] else [("value", .string cmd.value)]), rest) := by
  have hpv : ∀ s r, parseValue (n + 3) (quote s ++ r) = some (.string s, r) :=
    fun s r => parseValue_quote (n + 2) s r
  by_cases hv : cmd.value = ""
  · simp only [marshal, hv, if_true, List.append_nil, List.append_assoc, List.cons_append,
      List.singleton_append, List.nil_append]
    rw [parseValue_object, parseMembers_comma (hpv _), skipSpace_quote, parseMembers_close (hpv _)]
    rfl
  · simp only [marshal, hv, if_false, List.append_assoc, List.cons_append,
      List.singleton_append, List.nil_append]
    rw [parseValue_object, parseMembers_comma (hpv _), skipSpace_quote,
      parseMembers_comma (hpv _), skipSpace_quote, parseMembers_close (hpv _)]
    rfl

theorem marshal_length (cmd : WalCommand) : 4 ≤ (marshal cmd).length := by
  simp [marshal, quote]
  omega

theorem decodeJSON_marshal (cmd : WalCommand) :
    decodeJSON (marshal cmd) =
      some (.object ([("op", .string cmd.op), ("key", .string cmd.key)] ++
        if cmd.value = "" then [] else [("value", .string cmd.value)])) := by
  obtain ⟨n, hn⟩ : ∃ n, (marshal cmd).length + 1 = n + 4 :=
    ⟨(marshal cmd).length - 3, by have := marshal_length cmd; omega⟩
  have h := parseValue_marshal n cmd []
  rw [List.append_nil] at h
  rw [decodeJSON, hn, show skipSpace (marshal cmd) = marshal cmd from rfl, h]
  rfl

/-! ## The command -/

theorem fieldOf_op : fieldOf "op" = some .op := by decide

theorem fieldOf_key : fieldOf "key" = some .key := by decide

theorem fieldOf_value : fieldOf "value" = some .value := by decide

theorem decodeWalCommand_marshal (cmd : WalCommand) :
    decodeWalCommand (.object ([("op", .string cmd.op), ("key", .string cmd.key)] ++
      if cmd.value = "" then [] else [("value", .string cmd.value)])) = some cmd := by
  cases cmd with
  | mk op key value =>
      by_cases hv : value = "" <;>
        simp [decodeWalCommand, storeMember, fieldOf_op, fieldOf_key, fieldOf_value, setField, hv]

/-- `json.Unmarshal` reads back every command `json.Marshal` wrote. -/
theorem unmarshal_marshal (cmd : WalCommand) : unmarshal (marshal cmd) = some cmd := by
  rw [unmarshal, decodeJSON_marshal, Option.some_bind, decodeWalCommand_marshal]

end KVStore.Json
