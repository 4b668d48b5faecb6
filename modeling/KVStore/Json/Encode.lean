/-
# `KVStore.Json.Encode` — `json.Marshal(walCommand{...})`

`appendWAL` encodes each record with `json.Marshal`, so the frame payload is
fixed by `encoding/json`'s struct encoder: the fields in declaration order as
`"name":value`, `value` dropped when empty (`omitempty`), no white space, and
every string through `appendString` with HTML escaping on.  On valid UTF-8,
which is all a `String` can hold, `appendString` works rune by rune
(`escapeRune`): printable ASCII other than `"`, `\`, `<`, `>`, `&` is copied,
`"` and `\` and the five control characters with a short form are
backslash-escaped, the rest of ASCII becomes `\u00XX`, U+2028 and U+2029
become `\u2028` and `\u2029`, and every other rune is copied as its UTF-8
bytes.  (The short forms `\b` and `\f` are those of Go 1.22 and later.)
-/
import KVStore.File.Command

namespace KVStore.Json

open KVStore.File

/-- `hex[n]` of `encoding/json`: `"0123456789abcdef"`. -/
def hexDigit (n : Nat) : UInt8 :=
  if n < 10 then UInt8.ofNat (0x30 + n) else UInt8.ofNat (0x61 + (n - 10))

/-- `htmlSafeSet`: the ASCII bytes copied unescaped. -/
def htmlSafe (n : Nat) : Bool :=
  0x20 ≤ n && n < 0x80 && n != 0x22 && n != 0x5C && n != 0x3C && n != 0x3E && n != 0x26

/-- `appendString` with `escapeHTML` on one rune of a valid string. -/
def escapeRune (c : Char) : List UInt8 :=
  let n := c.toNat
  if n < 0x80 then
    if htmlSafe n then [UInt8.ofNat n]
    else if n = 0x5C ∨ n = 0x22 then [0x5C, UInt8.ofNat n]
    else if n = 0x08 then [0x5C, 0x62]
    else if n = 0x0C then [0x5C, 0x66]
    else if n = 0x0A then [0x5C, 0x6E]
    else if n = 0x0D then [0x5C, 0x72]
    else if n = 0x09 then [0x5C, 0x74]
    else [0x5C, 0x75, 0x30, 0x30, hexDigit (n / 16), hexDigit (n % 16)]
  else if n = 0x2028 ∨ n = 0x2029 then [0x5C, 0x75, 0x32, 0x30, 0x32, hexDigit (n % 16)]
  else encodeRune c

/-- A string as a JSON string literal. -/
def quote (s : String) : List UInt8 := 0x22 :: (s.data.flatMap escapeRune ++ [0x22])

/-- `json.Marshal(cmd)`: `{"op":…,"key":…}` with `,"value":…` before the
brace when the value is not empty. -/
def marshal (cmd : WalCommand) : List UInt8 :=
  [0x7B] ++ quote "op" ++ [0x3A] ++ quote cmd.op ++ [0x2C] ++ quote "key" ++ [0x3A] ++
    quote cmd.key ++
    (if cmd.value = "" then [] else [0x2C] ++ quote "value" ++ [0x3A] ++ quote cmd.value) ++
    [0x7D]

theorem ite_ne_nil {p : Prop} [Decidable p] {x y : List UInt8} (hx : x ≠ []) (hy : y ≠ []) :
    (if p then x else y) ≠ [] := by
  split <;> assumption

theorem escapeRune_ne_nil (c : Char) : escapeRune c ≠ [] := by
  unfold escapeRune
  dsimp only
  repeat' first | exact List.cons_ne_nil _ _ | exact encodeRune_ne_nil c | apply ite_ne_nil

/-! ## How long the payload is -/

/-- The number of bytes `appendString` writes between a string's quotes. -/
def escapedLength (s : String) : Nat := (s.data.flatMap escapeRune).length

theorem length_ite_le {p : Prop} [Decidable p] {x y : List UInt8} {n : Nat} (hx : x.length ≤ n)
    (hy : y.length ≤ n) : (if p then x else y).length ≤ n := by
  split <;> assumption

theorem escapeRune_length_le (c : Char) : (escapeRune c).length ≤ 6 := by
  unfold escapeRune
  dsimp only
  repeat' first | exact (encodeRune_length_le c).trans (by decide) | apply length_ite_le
  all_goals simp

/-- Escaping never drops a byte of a rune's UTF-8 form. -/
theorem encodeRune_length_le_escapeRune (c : Char) :
    (encodeRune c).length ≤ (escapeRune c).length := by
  by_cases h : c.toNat < 0x80
  · simpa [encodeRune_of_lt h] using List.length_pos_of_ne_nil (escapeRune_ne_nil c)
  · unfold escapeRune
    dsimp only
    rw [if_neg h]
    split_ifs
    · exact (encodeRune_length_le c).trans (by simp)
    · exact le_rfl

/-- A string escapes to at least its UTF-8 bytes and at most six bytes a rune. -/
theorem escapedLength_bounds (s : String) :
    (goBytes s).length ≤ escapedLength s ∧ escapedLength s ≤ 6 * s.length := by
  obtain ⟨cs⟩ := s
  induction cs with
  | nil => exact ⟨le_rfl, Nat.zero_le _⟩
  | cons c cs ih =>
      have h1 := encodeRune_length_le_escapeRune c
      have h2 := escapeRune_length_le c
      simp only [escapedLength, goBytes_mk, String.length, List.flatMap_cons,
        List.length_append, List.length_cons] at ih ⊢
      omega

theorem quote_length (s : String) : (quote s).length = escapedLength s + 2 := by
  simp [quote, escapedLength]

/-- The payload: 18 bytes of syntax around the escaped op and key, and 11 more
around the escaped value when it is not empty. -/
theorem marshal_length_eq (cmd : WalCommand) :
    (marshal cmd).length = 18 + escapedLength cmd.op + escapedLength cmd.key +
      (if cmd.value = "" then 0 else 11 + escapedLength cmd.value) := by
  have hop : escapedLength "op" = 2 := rfl
  have hkey : escapedLength "key" = 3 := rfl
  have hvalue : escapedLength "value" = 5 := rfl
  unfold marshal
  split_ifs <;> simp only [List.length_append, List.length_singleton, List.length_nil,
    quote_length, hop, hkey, hvalue] <;> omega

end KVStore.Json
