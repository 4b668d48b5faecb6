/-
# `KVStore.GoString` — Go strings as UTF-8 bytes, and the order the tree sorts them by

A Go `string` is a byte sequence.  Every string the three servers ever hold
arrives in a protobuf `string` field, which the transport accepts only as valid
UTF-8, so the model takes a Lean `String` (a list of Unicode scalar values) for
it and recovers the bytes with `goBytes`, which is `utf8.EncodeRune` applied to
each character.

Two things about those bytes are needed everywhere else:

* `decodeRune_encodeRune`: Go's `utf8.DecodeRune` reads back every character
  `EncodeRune` wrote, whatever follows it.  The JSON string scanner and the
  protobuf UTF-8 check both rest on it.
* `goLt` is Go's `<` on strings — `runtime.cmpstring`, lexicographic on bytes —
  and it is a strict total order on `String` (`goLt_irrefl`, `goLt_trans`,
  `goLt_total`).  The totality needs `goBytes` to be injective, which is the
  first fact read twice.
-/
import Mathlib.Data.List.Basic

namespace KVStore

/-! ## `utf8.EncodeRune` and `utf8.DecodeRune` -/

/-- `utf8.EncodeRune` on a code point that is a valid rune; the masks and shifts
of the Go source are written as the divisions they compute. -/
def encodeCode (n : Nat) : List UInt8 :=
  if n < 0x80 then [UInt8.ofNat n]
  else if n < 0x800 then [UInt8.ofNat (0xC0 + n / 64), UInt8.ofNat (0x80 + n % 64)]
  else if n < 0x10000 then
    [UInt8.ofNat (0xE0 + n / 4096), UInt8.ofNat (0x80 + n / 64 % 64), UInt8.ofNat (0x80 + n % 64)]
  else
    [UInt8.ofNat (0xF0 + n / 262144), UInt8.ofNat (0x80 + n / 4096 % 64),
      UInt8.ofNat (0x80 + n / 64 % 64), UInt8.ofNat (0x80 + n % 64)]

/-- `utf8.EncodeRune`. -/
def encodeRune (c : Char) : List UInt8 := encodeCode c.toNat

/-- The bytes of a Go string, `[]byte(s)`. -/
def goBytes (s : String) : List UInt8 := s.data.flatMap encodeRune

/-- `utf8.RuneError`, U+FFFD. -/
def runeError : Char := Char.ofNat 0xFFFD

/-- A byte in `[lo, hi]`: the accept ranges of `utf8.DecodeRune`. -/
def inRange (lo hi : Nat) (b : UInt8) : Bool := lo ≤ b.toNat && b.toNat ≤ hi

/-- `utf8.DecodeRune`: the first rune and its width, `(RuneError, 1)` on a byte
that does not start a well-formed sequence (overlong forms, surrogates and code
points past U+10FFFF included), `(RuneError, 0)` on no input. -/
def decodeRune : List UInt8 → Char × Nat
  | [] => (runeError, 0)
  | b0 :: rest =>
    let x := b0.toNat
    if x < 0x80 then (Char.ofNat x, 1)
    else if x < 0xC2 then (runeError, 1)
    else if x < 0xE0 then
      match rest with
      | b1 :: _ =>
        if inRange 0x80 0xBF b1 then (Char.ofNat ((x - 0xC0) * 64 + (b1.toNat - 0x80)), 2)
        else (runeError, 1)
      | [] => (runeError, 1)
    else if x < 0xF0 then
      match rest with
      | b1 :: b2 :: _ =>
        if inRange (if x = 0xE0 then 0xA0 else 0x80) (if x = 0xED then 0x9F else 0xBF) b1 &&
            inRange 0x80 0xBF b2 then
          (Char.ofNat ((x - 0xE0) * 4096 + (b1.toNat - 0x80) * 64 + (b2.toNat - 0x80)), 3)
        else (runeError, 1)
      | _ => (runeError, 1)
    else if x < 0xF5 then
      match rest with
      | b1 :: b2 :: b3 :: _ =>
        if inRange (if x = 0xF0 then 0x90 else 0x80) (if x = 0xF4 then 0x8F else 0xBF) b1 &&
            inRange 0x80 0xBF b2 && inRange 0x80 0xBF b3 then
          (Char.ofNat ((x - 0xF0) * 262144 + (b1.toNat - 0x80) * 4096 +
            (b2.toNat - 0x80) * 64 + (b3.toNat - 0x80)), 4)
        else (runeError, 1)
      | _ => (runeError, 1)
    else (runeError, 1)

theorem snd_pos_ite {p : Prop} [Decidable p] {x y : Char × Nat} (hx : 0 < x.2) (hy : 0 < y.2) :
    0 < (if p then x else y).2 := by
  split <;> assumption

/-- `DecodeRune` of a non-empty input reads at least one byte. -/
theorem decodeRune_width_pos (b : UInt8) (bs : List UInt8) : 0 < (decodeRune (b :: bs)).2 := by
  unfold decodeRune
  dsimp only
  repeat' first | exact Nat.succ_pos _ | apply snd_pos_ite | split

theorem toNat_ofNat_of_lt {n : Nat} (h : n < 256) : (UInt8.ofNat n).toNat = n :=
  Nat.mod_eq_of_lt h

theorem decodeRune_encodeCode {n : Nat} (hv : n < 0xD800 ∨ 0xDFFF < n ∧ n < 0x110000)
    (rest : List UInt8) :
    decodeRune (encodeCode n ++ rest) = (Char.ofNat n, (encodeCode n).length) := by
  unfold encodeCode
  split_ifs with h1 h2 h3 <;>
    simp (disch := omega) only [decodeRune, inRange, toNat_ofNat_of_lt, if_pos, if_neg,
      List.cons_append, List.nil_append, List.length_cons, List.length_nil, Bool.and_eq_true,
      decide_eq_true_eq, Prod.mk.injEq, and_true]
  · rw [show (192 + n / 64 - 192) * 64 + (128 + n % 64 - 128) = n by omega]
  · rw [if_pos (by split_ifs <;> omega),
      show (224 + n / 4096 - 224) * 4096 + (128 + n / 64 % 64 - 128) * 64 +
        (128 + n % 64 - 128) = n by omega]
  · rw [if_pos (by split_ifs <;> omega),
      show (240 + n / 262144 - 240) * 262144 + (128 + n / 4096 % 64 - 128) * 4096 +
        (128 + n / 64 % 64 - 128) * 64 + (128 + n % 64 - 128) = n by omega]

/-- `DecodeRune` reads back the character `EncodeRune` wrote, and its width. -/
theorem decodeRune_encodeRune (c : Char) (rest : List UInt8) :
    decodeRune (encodeRune c ++ rest) = (c, (encodeRune c).length) := by
  have hv : c.toNat < 0xD800 ∨ 0xDFFF < c.toNat ∧ c.toNat < 0x110000 := c.valid
  rw [encodeRune, decodeRune_encodeCode hv, Char.ofNat_toNat]

theorem encodeRune_ne_nil (c : Char) : encodeRune c ≠ [] := by
  unfold encodeRune encodeCode
  split_ifs <;> simp

/-- An ASCII character is its own byte. -/
theorem encodeRune_of_lt {c : Char} (h : c.toNat < 0x80) :
    encodeRune c = [UInt8.ofNat c.toNat] := by
  simp [encodeRune, encodeCode, h]

theorem encodeRune_length_le (c : Char) : (encodeRune c).length ≤ 4 := by
  unfold encodeRune encodeCode
  split_ifs <;> simp

/-- Every byte of a character outside ASCII has its top bit set; the lead byte
is the one the scanners look at. -/
theorem encodeRune_head_of_ge {c : Char} (h : 0x80 ≤ c.toNat) :
    ∃ b bs, encodeRune c = b :: bs ∧ 0x80 ≤ b.toNat := by
  unfold encodeRune encodeCode
  split_ifs with h1 h2 h3
  · omega
  · exact ⟨_, _, rfl, by rw [toNat_ofNat_of_lt (by omega)]; omega⟩
  · exact ⟨_, _, rfl, by rw [toNat_ofNat_of_lt (by omega)]; omega⟩
  · have := c.valid
    simp only [Char.toNat, UInt32.isValidChar, Nat.isValidChar] at this h3 ⊢
    exact ⟨_, _, rfl, by rw [toNat_ofNat_of_lt (by omega)]; omega⟩

@[simp] theorem goBytes_mk (cs : List Char) : goBytes ⟨cs⟩ = cs.flatMap encodeRune := rfl

/-! ## `goBytes` is injective -/

theorem flatMap_encodeRune_injective :
    ∀ {cs ds : List Char}, cs.flatMap encodeRune = ds.flatMap encodeRune → cs = ds
  | [], [], _ => rfl
  | [], d :: _, h => absurd h.symm (by simp [encodeRune_ne_nil])
  | c :: _, [], h => absurd h (by simp [encodeRune_ne_nil])
  | c :: cs, d :: ds, h => by
      simp only [List.flatMap_cons] at h
      have hd := congrArg decodeRune h
      rw [decodeRune_encodeRune, decodeRune_encodeRune] at hd
      obtain ⟨rfl, -⟩ := Prod.mk.inj hd
      rw [flatMap_encodeRune_injective (List.append_cancel_left h)]

theorem goBytes_injective {s t : String} (h : goBytes s = goBytes t) : s = t :=
  String.ext (flatMap_encodeRune_injective h)

theorem length_drop_decodeRune (b : UInt8) (bs : List UInt8) :
    ((b :: bs).drop (decodeRune (b :: bs)).2).length < (b :: bs).length := by
  have := decodeRune_width_pos b bs
  simp only [List.length_drop, List.length_cons]
  omega

/-- The runes of `bs` when it is valid UTF-8, as `utf8.Valid` decides it: no
step of `DecodeRune` reports an invalid byte. -/
def runesOf : List UInt8 → Option (List Char)
  | [] => some []
  | b :: bs =>
    if (decodeRune (b :: bs)).1 = runeError ∧ (decodeRune (b :: bs)).2 = 1 then none
    else (runesOf ((b :: bs).drop (decodeRune (b :: bs)).2)).map ((decodeRune (b :: bs)).1 :: ·)
termination_by bs => bs.length
decreasing_by exact length_drop_decodeRune _ _

theorem encodeRune_runeError : (encodeRune runeError).length = 3 := by decide

/-- The bytes of a string are valid UTF-8, and their runes are its characters. -/
theorem runesOf_goBytes (s : String) : runesOf (goBytes s) = some s.data := by
  obtain ⟨cs⟩ := s
  induction cs with
  | nil => rw [goBytes_mk, List.flatMap_nil, runesOf.eq_1]
  | cons c cs ih =>
      obtain ⟨b, bs, hb⟩ := List.exists_cons_of_ne_nil (encodeRune_ne_nil c)
      have hd := decodeRune_encodeRune c (goBytes ⟨cs⟩)
      have hw : ¬ (c = runeError ∧ (encodeRune c).length = 1) := by
        rintro ⟨rfl, h⟩
        rw [encodeRune_runeError] at h
        cases h
      rw [goBytes_mk, List.flatMap_cons, hb, List.cons_append, runesOf.eq_2, ← List.cons_append,
        ← hb]
      simp only [hd, if_neg hw, List.drop_left, ← goBytes_mk, ih, Option.map_some']

/-! ## Go's `<` on strings -/

/-- `runtime.cmpstring(a, b) < 0`: the first differing byte decides, and a
proper prefix is smaller. -/
def bytesLt : List UInt8 → List UInt8 → Bool
  | [], [] => false
  | [], _ :: _ => true
  | _ :: _, [] => false
  | a :: as, b :: bs => a.toNat < b.toNat || (a = b && bytesLt as bs)

/-- Go's `a < b` on strings. -/
def goLt (a b : String) : Bool := bytesLt (goBytes a) (goBytes b)

theorem bytesLt_irrefl : ∀ x : List UInt8, bytesLt x x = false
  | [] => rfl
  | _ :: x => by simp [bytesLt, bytesLt_irrefl x]

theorem bytesLt_trans :
    ∀ {x y z : List UInt8}, bytesLt x y → bytesLt y z → bytesLt x z
  | [], _ :: _, _ :: _, _, _ => rfl
  | a :: x, b :: y, c :: z, hxy, hyz => by
      simp only [bytesLt, Bool.or_eq_true, decide_eq_true_eq, Bool.and_eq_true] at *
      rcases hxy with h1 | ⟨rfl, h1⟩ <;> rcases hyz with h2 | ⟨rfl, h2⟩
      · exact .inl (by omega)
      · exact .inl h1
      · exact .inl h2
      · exact .inr ⟨rfl, bytesLt_trans h1 h2⟩
  | [], [], _, h, _ => absurd h (by simp [bytesLt])
  | _ :: _, [], _, h, _ => absurd h (by simp [bytesLt])
  | _, _ :: _, [], _, h => absurd h (by simp [bytesLt])

theorem bytesLt_total :
    ∀ {x y : List UInt8}, x ≠ y → bytesLt x y ∨ bytesLt y x
  | [], [], h => absurd rfl h
  | [], _ :: _, _ => .inl rfl
  | _ :: _, [], _ => .inr rfl
  | a :: x, b :: y, h => by
      simp only [bytesLt, Bool.or_eq_true, decide_eq_true_eq, Bool.and_eq_true]
      by_cases hab : a = b
      · subst hab
        have hxy : x ≠ y := fun e => h (e ▸ rfl)
        rcases bytesLt_total hxy with h' | h'
        · exact .inl (.inr ⟨rfl, h'⟩)
        · exact .inr (.inr ⟨rfl, h'⟩)
      · have : a.toNat ≠ b.toNat := fun e => hab (UInt8.toNat.inj e)
        omega

theorem goLt_irrefl (a : String) : goLt a a = false := bytesLt_irrefl _

theorem goLt_trans {a b c : String} (hab : goLt a b) (hbc : goLt b c) : goLt a c :=
  bytesLt_trans hab hbc

theorem goLt_asymm {a b : String} (hab : goLt a b) : goLt b a = false := by
  cases h : goLt b a
  · rfl
  · simpa [goLt_irrefl] using goLt_trans hab h

/-- Two different strings are ordered one way or the other. -/
theorem goLt_total {a b : String} (h : a ≠ b) : goLt a b ∨ goLt b a :=
  bytesLt_total fun e => h (goBytes_injective e)

/-- Neither below the other: the tree's notion of equal items is equality. -/
theorem eq_of_not_goLt {a b : String} (h1 : goLt a b = false) (h2 : goLt b a = false) :
    a = b := by
  by_contra h
  rcases goLt_total h with h' | h' <;> simp_all

end KVStore
