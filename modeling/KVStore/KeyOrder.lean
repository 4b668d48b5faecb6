/-
# `KVStore.KeyOrder` — the order the tree sorts keys by is the order of their characters

The tree compares keys with Go's `<` on strings, `runtime.cmpstring`, which
compares their UTF-8 bytes (`goLt`).  UTF-8 was laid out so that this is the
order of the code points, character by character; `goLt_iff_lt` proves it
against `List.lt` on the characters, the lexicographic order core Lean's `<`
on `String` is defined by.  Restated with it, a `Scan` returns the stored pairs
whose key lies between its bounds in that order, in increasing order
(`scan_between`).

The proof reads a list of bytes as a big-endian number (`beVal`): two lists of
one length compare as their numbers (`bytesLt_eq_beVal`).  Encodings of
different lengths differ in their first byte already, a longer one's being
larger; encodings of one length compare as their code points, since the number
of an encoding is the code point spread over its payload bits (`spread`), which
grows with the code point.
-/
import KVStore.Scan

namespace KVStore

/-! ## Lists of bytes of one length -/

/-- The place value of a byte with `k` bytes after it. -/
def pow256 : Nat → Nat
  | 0 => 1
  | k + 1 => 256 * pow256 k

/-- The bytes of a list read as one big-endian number. -/
def beVal : List UInt8 → Nat
  | [] => 0
  | b :: bs => b.toNat * pow256 bs.length + beVal bs

theorem beVal_lt : ∀ u : List UInt8, beVal u < pow256 u.length
  | [] => Nat.one_pos
  | b :: bs => by
      have hb : b.toNat < 256 := b.toNat_lt_size
      have := beVal_lt bs
      calc beVal (b :: bs) = b.toNat * pow256 bs.length + beVal bs := rfl
        _ < (b.toNat + 1) * pow256 bs.length := by rw [Nat.succ_mul]; omega
        _ ≤ 256 * pow256 bs.length := Nat.mul_le_mul_right _ hb

theorem mul_add_lt_mul_add_iff {a b x y P : Nat} (hx : x < P) (hy : y < P) :
    a * P + x < b * P + y ↔ a < b ∨ a = b ∧ x < y := by
  rcases Nat.lt_trichotomy a b with h | rfl | h
  · have : (a + 1) * P ≤ b * P := Nat.mul_le_mul_right _ h
    rw [Nat.succ_mul] at this
    exact ⟨fun _ => .inl h, fun _ => by omega⟩
  · omega
  · have : (b + 1) * P ≤ a * P := Nat.mul_le_mul_right _ h
    rw [Nat.succ_mul] at this
    constructor
    · intro
      omega
    · rintro (h' | ⟨rfl, _⟩) <;> omega

/-- Go's comparison of two byte lists of one length is the comparison of
their numbers. -/
theorem bytesLt_eq_beVal : ∀ {u v : List UInt8}, u.length = v.length →
    bytesLt u v = decide (beVal u < beVal v)
  | [], [], _ => rfl
  | a :: u, b :: v, h => by
      have hl : u.length = v.length := Nat.succ.inj h
      have hab : a = b ↔ a.toNat = b.toNat := ⟨congrArg _, UInt8.toNat.inj⟩
      simp only [bytesLt, beVal, hl, bytesLt_eq_beVal hl,
        mul_add_lt_mul_add_iff (hl ▸ beVal_lt u) (beVal_lt v), hab]
      simp

/-- Two different lists of one length: whatever follows them does not count. -/
theorem bytesLt_append_of_length_eq : ∀ {u v : List UInt8}, u.length = v.length → u ≠ v →
    ∀ xs ys, bytesLt (u ++ xs) (v ++ ys) = bytesLt u v
  | [], [], _, h, _, _ => absurd rfl h
  | a :: u, b :: v, hl, h, xs, ys => by
      by_cases hab : a = b
      · subst hab
        have hu : u ≠ v := fun e => h (e ▸ rfl)
        simp [bytesLt, bytesLt_append_of_length_eq (Nat.succ.inj hl) hu xs ys]
      · simp [bytesLt, hab]

theorem bytesLt_cons_of_ne {a b : UInt8} (h : a.toNat ≠ b.toNat) (as bs : List UInt8) :
    bytesLt (a :: as) (b :: bs) = decide (a.toNat < b.toNat) := by
  have hab : a ≠ b := fun e => h (congrArg _ e)
  simp [bytesLt, hab]

theorem bytesLt_append_left : ∀ (p xs ys : List UInt8), bytesLt (p ++ xs) (p ++ ys) = bytesLt xs ys
  | [], _, _ => rfl
  | a :: p, xs, ys => by simp [bytesLt, bytesLt_append_left p]

/-! ## The encodings of two code points -/

/-- What `utf8.EncodeRune` writes, by the length of the encoding. -/
theorem encodeCode_cases (n : Nat) :
    n < 0x80 ∧ encodeCode n = [UInt8.ofNat n] ∨
    0x80 ≤ n ∧ n < 0x800 ∧
      encodeCode n = [UInt8.ofNat (0xC0 + n / 64), UInt8.ofNat (0x80 + n % 64)] ∨
    0x800 ≤ n ∧ n < 0x10000 ∧ encodeCode n =
      [UInt8.ofNat (0xE0 + n / 4096), UInt8.ofNat (0x80 + n / 64 % 64), UInt8.ofNat (0x80 + n % 64)] ∨
    0x10000 ≤ n ∧ encodeCode n =
      [UInt8.ofNat (0xF0 + n / 262144), UInt8.ofNat (0x80 + n / 4096 % 64),
        UInt8.ofNat (0x80 + n / 64 % 64), UInt8.ofNat (0x80 + n % 64)] := by
  unfold encodeCode
  by_cases h1 : n < 0x80
  · exact .inl ⟨h1, if_pos h1⟩
  rw [if_neg h1]
  by_cases h2 : n < 0x800
  · exact .inr (.inl ⟨by omega, h2, if_pos h2⟩)
  rw [if_neg h2]
  by_cases h3 : n < 0x10000
  · exact .inr (.inr (.inl ⟨by omega, h3, if_pos h3⟩))
  · exact .inr (.inr (.inr ⟨by omega, if_neg h3⟩))

/-- The code point spread over the payload bits of a multi-byte encoding:
six bits a byte, the extra bits the lead and continuation markers take
counted in.  It grows with the code point. -/
def spread (n : Nat) : Nat := n + 192 * (n / 64) + 49152 * (n / 4096) + 12582912 * (n / 262144)

theorem spread_lt_spread {n m : Nat} (h : n < m) : spread n < spread m := by
  have h1 : n / 64 ≤ m / 64 := Nat.div_le_div_right h.le
  have h2 : n / 4096 ≤ m / 4096 := Nat.div_le_div_right h.le
  have h3 : n / 262144 ≤ m / 262144 := Nat.div_le_div_right h.le
  unfold spread
  omega

/-- Read as a number, an encoding of two bytes or more is its code point
spread over the payload bits, past a constant for its length. -/
theorem beVal_encodeCode (n : Nat) (hn : n < 0x110000) :
    (encodeCode n).length = 1 ∧ beVal (encodeCode n) = n ∨
    (encodeCode n).length = 2 ∧ beVal (encodeCode n) = 49280 + spread n ∨
    (encodeCode n).length = 3 ∧ beVal (encodeCode n) = 14712960 + spread n ∨
    (encodeCode n).length = 4 ∧ beVal (encodeCode n) = 4034953344 + spread n := by
  rcases encodeCode_cases n with ⟨h1, e⟩ | ⟨h1, h2, e⟩ | ⟨h1, h2, e⟩ | ⟨h1, e⟩ <;>
    rw [e] <;> simp (disch := omega) only [beVal, pow256, toNat_ofNat_of_lt, List.length_cons,
      List.length_nil, spread, Nat.reduceAdd, Nat.reduceEqDiff, true_and, false_and, or_false,
      false_or] <;>
    omega

/-- Encodings of one length compare as their code points. -/
theorem beVal_encodeCode_lt {n m : Nat} (hn : n < 0x110000) (hm : m < 0x110000) (h : n < m)
    (hl : (encodeCode n).length = (encodeCode m).length) :
    beVal (encodeCode n) < beVal (encodeCode m) := by
  have hs := spread_lt_spread h
  rcases beVal_encodeCode n hn with ⟨ln, vn⟩ | ⟨ln, vn⟩ | ⟨ln, vn⟩ | ⟨ln, vn⟩ <;>
  rcases beVal_encodeCode m hm with ⟨lm, vm⟩ | ⟨lm, vm⟩ | ⟨lm, vm⟩ | ⟨lm, vm⟩ <;>
  omega

/-- The lead byte of an encoding, by the length of the encoding: the code
point itself, or a byte in a range of its own that lies above the ranges of
shorter encodings. -/
theorem encodeCode_lead (n : Nat) (hn : n < 0x110000) :
    ∃ b rest, encodeCode n = b :: rest ∧
      ((encodeCode n).length = 1 ∧ n < 0x80 ∧ b.toNat = n ∨
      (encodeCode n).length = 2 ∧ 0x80 ≤ n ∧ n < 0x800 ∧ 0xC2 ≤ b.toNat ∧ b.toNat ≤ 0xDF ∨
      (encodeCode n).length = 3 ∧ 0x800 ≤ n ∧ n < 0x10000 ∧ 0xE0 ≤ b.toNat ∧ b.toNat ≤ 0xEF ∨
      (encodeCode n).length = 4 ∧ 0x10000 ≤ n ∧ 0xF0 ≤ b.toNat ∧ b.toNat ≤ 0xF4) := by
  rcases encodeCode_cases n with ⟨h1, e⟩ | ⟨h1, h2, e⟩ | ⟨h1, h2, e⟩ | ⟨h1, e⟩ <;>
    refine ⟨_, _, e, ?_⟩ <;> rw [e] <;>
    simp (disch := omega) only [toNat_ofNat_of_lt, List.length_cons, List.length_nil,
      Nat.reduceAdd, Nat.reduceEqDiff, true_and, and_true, false_and, or_false, false_or] <;>
    omega

/-- Encodings of different lengths: the first bytes differ, and the longer
encoding, of the larger code point, has the larger one. -/
theorem bytesLt_encodeCode_of_length_ne {n m : Nat} (hn : n < 0x110000) (hm : m < 0x110000)
    (hl : (encodeCode n).length ≠ (encodeCode m).length) (xs ys : List UInt8) :
    bytesLt (encodeCode n ++ xs) (encodeCode m ++ ys) = decide (n < m) := by
  obtain ⟨b, u, e, hb⟩ := encodeCode_lead n hn
  obtain ⟨b', v, f, hb'⟩ := encodeCode_lead m hm
  rw [e, f, List.cons_append, List.cons_append, bytesLt_cons_of_ne (by omega)]
  exact decide_eq_decide.2 (by omega)

theorem encodeRune_injective {c d : Char} (h : encodeRune c = encodeRune d) : c = d := by
  have hc := decodeRune_encodeRune c []
  rw [h, decodeRune_encodeRune d []] at hc
  exact (Prod.mk.inj hc).1.symm

theorem toNat_lt_of_char (c : Char) : c.toNat < 0x110000 := by
  have := c.valid
  simp only [Char.toNat, UInt32.isValidChar, Nat.isValidChar] at this ⊢
  omega

/-- Go's comparison of two encoded characters, whatever follows each: equal
characters pass the decision on, different ones decide it by their code
points. -/
theorem bytesLt_encodeRune (c d : Char) (xs ys : List UInt8) :
    bytesLt (encodeRune c ++ xs) (encodeRune d ++ ys) =
      if c = d then bytesLt xs ys else decide (c.toNat < d.toNat) := by
  split_ifs with h
  · subst h
    exact bytesLt_append_left _ xs ys
  have hne : c.toNat ≠ d.toNat := fun e => h (Char.ext (UInt32.toNat.inj e))
  have hinj : encodeCode c.toNat ≠ encodeCode d.toNat := fun e => h (encodeRune_injective e)
  have hc := toNat_lt_of_char c
  have hd := toNat_lt_of_char d
  show bytesLt (encodeCode c.toNat ++ xs) (encodeCode d.toNat ++ ys) = _
  by_cases hl : (encodeCode c.toNat).length = (encodeCode d.toNat).length
  · rw [bytesLt_append_of_length_eq hl hinj, bytesLt_eq_beVal hl]
    exact decide_eq_decide.2 ⟨fun hv => (Nat.lt_or_gt_of_ne hne).resolve_right fun hgt =>
      Nat.lt_asymm hv (beVal_encodeCode_lt hd hc hgt hl.symm),
      fun hlt => beVal_encodeCode_lt hc hd hlt hl⟩
  · exact bytesLt_encodeCode_of_length_ne hc hd hl xs ys

/-! ## Strings -/

theorem bytesLt_flatMap_iff : ∀ cs ds : List Char,
    bytesLt (cs.flatMap encodeRune) (ds.flatMap encodeRune) = true ↔ List.lt cs ds
  | [], [] => ⟨fun h => absurd h (by simp [bytesLt]), fun h => nomatch h⟩
  | [], d :: ds => by
      obtain ⟨b, bs, hb⟩ := List.exists_cons_of_ne_nil (encodeRune_ne_nil d)
      simp only [List.flatMap_nil, List.flatMap_cons, hb, List.cons_append]
      exact ⟨fun _ => .nil _ _, fun _ => rfl⟩
  | c :: cs, [] => by
      obtain ⟨b, bs, hb⟩ := List.exists_cons_of_ne_nil (encodeRune_ne_nil c)
      simp only [List.flatMap_nil, List.flatMap_cons, hb, List.cons_append]
      exact ⟨fun h => absurd h (by simp [bytesLt]), fun h => nomatch h⟩
  | c :: cs, d :: ds => by
      rw [List.flatMap_cons, List.flatMap_cons, bytesLt_encodeRune]
      have hlt : ∀ a b : Char, a < b ↔ a.toNat < b.toNat := fun _ _ => Iff.rfl
      split_ifs with h
      · subst h
        rw [bytesLt_flatMap_iff cs ds]
        have hirr : ¬ c < c := fun h' => Nat.lt_irrefl _ ((hlt c c).1 h')
        constructor
        · exact .tail hirr hirr
        · rintro (_ | ⟨_, _, h'⟩ | ⟨_, _, h'⟩)
          · exact absurd ‹c < c› hirr
          · exact h'
      · rw [decide_eq_true_eq, ← hlt]
        constructor
        · exact .head _ _
        · rintro (_ | ⟨_, _, h'⟩ | ⟨h1, h2, _⟩)
          · exact h'
          · have : c.toNat = d.toNat := by rw [hlt] at h1 h2; omega
            exact absurd (Char.ext (UInt32.toNat.inj this)) h

/-- Go's `<` on strings, the order the tree keeps its keys in, is the
lexicographic order of the strings' characters, `String`'s own `<`. -/
theorem goLt_iff_lt (a b : String) : goLt a b = true ↔ List.lt a.data b.data :=
  bytesLt_flatMap_iff a.data b.data

example : goLt "z" "é" = true ∧ goLt "é" "z" = false := by decide

theorem goLt_eq_false_iff (a b : String) : goLt a b = false ↔ ¬ List.lt a.data b.data := by
  rw [← bytesLt_flatMap_iff, Bool.not_eq_true]
  rfl

/-- A `Scan` returns the stored pairs whose key lies between its bounds in
the lexicographic order of characters, in increasing order of key. -/
theorem scan_between (t : BTree) (startKey endKey : String) :
    (∀ p : KVPair, p ∈ scan t startKey endKey ↔ t.toMap p.key = some p.value ∧
      ¬ List.lt p.key.data startKey.data ∧ ¬ List.lt endKey.data p.key.data) ∧
    (scan t startKey endKey).Pairwise fun a b => List.lt a.key.data b.key.data := by
  refine ⟨fun p => by rw [mem_scan, goLt_eq_false_iff, goLt_eq_false_iff], ?_⟩
  exact (scan_ascending t startKey endKey).imp fun h => (bytesLt_flatMap_iff _ _).1 h

end KVStore
