/-
# `KVStore.Json.Decode` — `json.Unmarshal(payload, &cmd)`

`replayWAL` decodes each frame's payload with `json.Unmarshal` into a fresh
`walCommand`.  `encoding/json` first checks the whole input against the JSON
grammar (`checkValid`, the byte-level scanner), then walks the value into the
struct.  The model does both in one pass over the bytes:

* `parseValue` is the grammar: white space, objects, arrays, strings with every
  escape, numbers, `true`, `false`, `null`, and nothing after the value but
  white space.  Strings are unquoted as `unquoteBytes` does it: escapes
  decoded, a `\uXXXX` surrogate pair joined and a lone surrogate replaced by
  U+FFFD, and any byte sequence that is not UTF-8 replaced by U+FFFD, one byte
  at a time.  The recursion into nested values is bounded by fuel; every call
  reads at least one byte, so the fuel `Unmarshal` is given, one more than the
  input's length, is never the reason it fails.
* `decodeWalCommand` is the struct decoder: an object's members are matched to
  `op`, `key` and `value` by name, exactly or else up to case folding
  (`fieldOf`); an unmatched member is skipped; a string is stored, a `null`
  leaves the field alone, and any other value is an `UnmarshalTypeError` that
  fails the whole call after the rest has been read.  A top-level `null`
  decodes to the zero command; any other non-object is a type error.

The error values themselves are not modelled: `replayWAL` only wraps them.
No byte the decoder reads is NUL, so no payload holding one decodes
(`unmarshal_of_nul`).
-/
import KVStore.Json.Encode

namespace KVStore.Json

open KVStore.File

/-- A JSON value, with only as much of numbers as the decoder looks at. -/
inductive JsonValue where
  | null
  | bool (b : Bool)
  | number
  | string (s : String)
  | array (vs : List JsonValue)
  | object (ms : List (String × JsonValue))

/-! ## The scanner -/

/-- `isSpace`: the four white-space bytes of JSON. -/
def isSpace (b : UInt8) : Bool :=
  b.toNat == 0x20 || b.toNat == 0x09 || b.toNat == 0x0A || b.toNat == 0x0D

/-- Skip white space. -/
def skipSpace : List UInt8 → List UInt8
  | [] => []
  | b :: bs => if isSpace b then skipSpace bs else b :: bs

/-- A hexadecimal digit, either case. -/
def hexVal (b : UInt8) : Option Nat :=
  let n := b.toNat
  if 0x30 ≤ n ∧ n ≤ 0x39 then some (n - 0x30)
  else if 0x61 ≤ n ∧ n ≤ 0x66 then some (n - 0x61 + 10)
  else if 0x41 ≤ n ∧ n ≤ 0x46 then some (n - 0x41 + 10)
  else none

/-- `getu4`: the four hexadecimal digits after `\u`. -/
def hex4 : List UInt8 → Option (Nat × List UInt8)
  | a :: b :: c :: d :: rest =>
    match hexVal a, hexVal b, hexVal c, hexVal d with
    | some a, some b, some c, some d => some (((a * 16 + b) * 16 + c) * 16 + d, rest)
    | _, _, _, _ => none
  | _ => none

/-- The character a `\u` escape with code unit `u` stands for, `rest` being
what follows it: a high surrogate followed by an escaped low one is joined
(`utf16.DecodeRune`), any other surrogate is U+FFFD. -/
def unicodeEscape (u : Nat) (rest : List UInt8) : Char × List UInt8 :=
  if 0xD800 ≤ u ∧ u < 0xE000 then
    match rest with
    | b :: b' :: rest' =>
      if b.toNat = 0x5C ∧ b'.toNat = 0x75 then
        match hex4 rest' with
        | some (u2, rest'') =>
          if u < 0xDC00 ∧ 0xDC00 ≤ u2 ∧ u2 < 0xE000 then
            (Char.ofNat ((u - 0xD800) * 0x400 + (u2 - 0xDC00) + 0x10000), rest'')
          else (runeError, rest)
        | none => (runeError, rest)
      else (runeError, rest)
    | _ => (runeError, rest)
  else (Char.ofNat u, rest)

/-- The escaped character after a backslash. -/
def escapeStep : List UInt8 → Option (Char × List UInt8)
  | [] => none
  | e :: rest =>
    if e.toNat = 0x22 then some ('"', rest)
    else if e.toNat = 0x5C then some ('\\', rest)
    else if e.toNat = 0x2F then some ('/', rest)
    else if e.toNat = 0x62 then some (Char.ofNat 0x08, rest)
    else if e.toNat = 0x66 then some (Char.ofNat 0x0C, rest)
    else if e.toNat = 0x6E then some ('\n', rest)
    else if e.toNat = 0x72 then some ('\r', rest)
    else if e.toNat = 0x74 then some ('\t', rest)
    else if e.toNat = 0x75 then (hex4 rest).map fun p => unicodeEscape p.1 p.2
    else none

/-- One step inside a string literal: the closing quote (`none`), one
character, or a syntax error. -/
def stringStep : List UInt8 → Option (Option Char × List UInt8)
  | [] => none
  | b :: rest =>
    if b.toNat = 0x22 then some (none, rest)
    else if b.toNat = 0x5C then (escapeStep rest).map fun p => (some p.1, p.2)
    else if b.toNat < 0x20 then none
    else if b.toNat < 0x80 then some (some (Char.ofNat b.toNat), rest)
    else some (some (decodeRune (b :: rest)).1, (b :: rest).drop (decodeRune (b :: rest)).2)

theorem hex4_length {bs rest : List UInt8} {u : Nat} (h : hex4 bs = some (u, rest)) :
    rest.length + 4 = bs.length := by
  match bs, h with
  | _ :: _ :: _ :: _ :: _, h =>
      simp only [hex4] at h
      split at h
      · cases h; simp
      · cases h

theorem unicodeEscape_length (u : Nat) (rest : List UInt8) :
    (unicodeEscape u rest).2.length ≤ rest.length := by
  unfold unicodeEscape
  repeat' split
  any_goals exact le_rfl
  -- the joined surrogate pair, which reads the second escape
  have := hex4_length ‹_›
  simp only [List.length_cons]
  omega

/-- A branch that hands back the input unread stays within the length bound. -/
theorem length_lt_of_ite_eq_some {p : Prop} [Decidable p] {a c : Char} {bs rest : List UInt8}
    {o : Option (Char × List UInt8)} (ho : o = some (c, rest) → rest.length < bs.length + 1)
    (h : (if p then some (a, bs) else o) = some (c, rest)) : rest.length < bs.length + 1 := by
  split_ifs at h
  · cases h; omega
  · exact ho h

theorem escapeStep_length {bs rest : List UInt8} {c : Char}
    (h : escapeStep bs = some (c, rest)) : rest.length < bs.length := by
  match bs, h with
  | e :: bs, h =>
      rw [escapeStep] at h
      revert h
      repeat apply length_lt_of_ite_eq_some
      intro h
      split at h
      · obtain ⟨⟨u, r⟩, hr, he⟩ := Option.map_eq_some'.mp h
        have h1 := hex4_length hr
        have h2 : rest.length ≤ r.length := by simpa [he] using unicodeEscape_length u r
        omega
      · cases h

/-- Every step reads at least one byte. -/
theorem stringStep_length {bs rest : List UInt8} {x : Option Char}
    (h : stringStep bs = some (x, rest)) : rest.length < bs.length := by
  match bs, h with
  | b :: bs, h =>
      simp only [stringStep] at h
      split_ifs at h
      · cases h; simp
      · obtain ⟨⟨c, r⟩, hr, he⟩ := Option.map_eq_some'.mp h
        cases he
        have := escapeStep_length hr
        simp only [List.length_cons]
        omega
      · cases h; simp
      · cases h
        have := decodeRune_width_pos b bs
        simp only [List.length_drop, List.length_cons]
        omega

/-- The body of a string literal after its opening quote, unquoted; `acc`
holds the characters read so far, last first. -/
def parseString (acc : List Char) (bs : List UInt8) : Option (String × List UInt8) :=
  match h : stringStep bs with
  | none => none
  | some (none, rest) => some (⟨acc.reverse⟩, rest)
  | some (some c, rest) => parseString (c :: acc) rest
termination_by bs.length
decreasing_by exact stringStep_length h

/-- `parseString` one step at a time. -/
theorem parseString_eq (acc : List Char) (bs : List UInt8) :
    parseString acc bs =
      match stringStep bs with
      | none => none
      | some (none, rest) => some (⟨acc.reverse⟩, rest)
      | some (some c, rest) => parseString (c :: acc) rest := by
  rw [parseString]
  split <;> simp_all

/-- A decimal digit. -/
def isDigit (b : UInt8) : Bool := 0x30 ≤ b.toNat && b.toNat ≤ 0x39

/-- Skip decimal digits. -/
def dropDigits : List UInt8 → List UInt8
  | [] => []
  | b :: bs => if isDigit b then dropDigits bs else b :: bs

/-- At least one decimal digit, and what follows them. -/
def digits1 : List UInt8 → Option (List UInt8)
  | [] => none
  | b :: bs => if isDigit b then some (dropDigits bs) else none

/-- The integer part of a number after its sign: `0`, or a digit `1`–`9`
followed by digits. -/
def intPart : List UInt8 → Option (List UInt8)
  | [] => none
  | b :: bs => if b.toNat = 0x30 then some bs else if isDigit b then some (dropDigits bs) else none

/-- An optional fraction: `.` and at least one digit. -/
def fracPart : List UInt8 → Option (List UInt8)
  | [] => some []
  | b :: bs => if b.toNat = 0x2E then digits1 bs else some (b :: bs)

/-- An optional exponent: `e` or `E`, an optional sign, at least one digit. -/
def expPart : List UInt8 → Option (List UInt8)
  | [] => some []
  | b :: bs =>
    if b.toNat = 0x65 ∨ b.toNat = 0x45 then
      match bs with
      | s :: bs' => if s.toNat = 0x2B ∨ s.toNat = 0x2D then digits1 bs' else digits1 (s :: bs')
      | [] => none
    else some (b :: bs)

/-- A number, `-? int frac? exp?`, as the scanner's number states accept it. -/
def parseNumber : List UInt8 → Option (List UInt8)
  | [] => none
  | b :: bs =>
    let afterSign := if b.toNat = 0x2D then bs else b :: bs
    (intPart afterSign).bind fun r => (fracPart r).bind expPart

/-- A literal's remaining bytes after its first one. -/
def parseLiteral (lit bs : List UInt8) : Option (List UInt8) :=
  if lit.isPrefixOf bs then some (bs.drop lit.length) else none

/-- The members of an object after `{`, `pv` reading each value: a string
key, `:`, a value, then `,` and the next member or the closing `}`. -/
def parseMembers (pv : List UInt8 → Option (JsonValue × List UInt8)) :
    Nat → List (String × JsonValue) → List UInt8 →
      Option (List (String × JsonValue) × List UInt8)
  | 0, _, _ => none
  | _ + 1, _, [] => none
  | n + 1, acc, b :: bs =>
    if b.toNat = 0x22 then
      match parseString [] bs with
      | none => none
      | some (k, r) =>
        match skipSpace r with
        | c :: r' =>
          if c.toNat = 0x3A then
            match pv (skipSpace r') with
            | none => none
            | some (v, r'') =>
              match skipSpace r'' with
              | d :: r3 =>
                if d.toNat = 0x2C then parseMembers pv n ((k, v) :: acc) (skipSpace r3)
                else if d.toNat = 0x7D then some (((k, v) :: acc).reverse, r3)
                else none
              | [] => none
          else none
        | [] => none
    else none

/-- The elements of an array after `[`, `pv` reading each. -/
def parseElements (pv : List UInt8 → Option (JsonValue × List UInt8)) :
    Nat → List JsonValue → List UInt8 → Option (List JsonValue × List UInt8)
  | 0, _, _ => none
  | n + 1, acc, bs =>
    match pv bs with
    | none => none
    | some (v, r) =>
      match skipSpace r with
      | d :: r' =>
        if d.toNat = 0x2C then parseElements pv n (v :: acc) (skipSpace r')
        else if d.toNat = 0x5D then some ((v :: acc).reverse, r')
        else none
      | [] => none

/-- One JSON value at the head of the input, and what follows it. -/
def parseValue : Nat → List UInt8 → Option (JsonValue × List UInt8)
  | 0, _ => none
  | _ + 1, [] => none
  | n + 1, b :: bs =>
    if b.toNat = 0x7B then
      match skipSpace bs with
      | c :: r =>
        if c.toNat = 0x7D then some (.object [], r)
        else (parseMembers (parseValue n) n [] (c :: r)).map fun p => (.object p.1, p.2)
      | [] => none
    else if b.toNat = 0x5B then
      match skipSpace bs with
      | c :: r =>
        if c.toNat = 0x5D then some (.array [], r)
        else (parseElements (parseValue n) n [] (c :: r)).map fun p => (.array p.1, p.2)
      | [] => none
    else if b.toNat = 0x22 then (parseString [] bs).map fun p => (.string p.1, p.2)
    else if b.toNat = 0x74 then (parseLiteral [0x72, 0x75, 0x65] bs).map fun r => (.bool true, r)
    else if b.toNat = 0x66 then
      (parseLiteral [0x61, 0x6C, 0x73, 0x65] bs).map fun r => (.bool false, r)
    else if b.toNat = 0x6E then (parseLiteral [0x75, 0x6C, 0x6C] bs).map fun r => (.null, r)
    else if b.toNat = 0x2D ∨ isDigit b then (parseNumber (b :: bs)).map fun r => (.number, r)
    else none

/-- `checkValid` and the value it accepts: one value, white space around it,
nothing else. -/
def decodeJSON (data : List UInt8) : Option JsonValue :=
  match parseValue (data.length + 1) (skipSpace data) with
  | some (v, rest) => if skipSpace rest = [] then some v else none
  | none => none

/-! ## Into a `walCommand` -/

/-- The fold of one character as far as the three field names can tell: ASCII
lower case is raised, and U+212A KELVIN SIGN and U+017F LATIN SMALL LETTER LONG
S fold to `K` and `S`, the only characters outside ASCII whose simple-fold
orbit holds an ASCII letter.  Every other character keeps itself, which differs
from `foldRune` only on characters that fold to no ASCII letter either way. -/
def foldRune (c : Char) : Char :=
  if 0x61 ≤ c.toNat ∧ c.toNat ≤ 0x7A then Char.ofNat (c.toNat - 32)
  else if c.toNat = 0x212A then 'K'
  else if c.toNat = 0x17F then 'S'
  else c

/-- `foldName`. -/
def foldName (s : String) : String := ⟨s.data.map foldRune⟩

/-- The three fields of `walCommand`. -/
inductive Field where
  | op
  | key
  | value
deriving DecidableEq, Repr

/-- The field a member name selects: `byExactName`, else `byFoldedName`; the
three names fold apart, so the folded lookup alone decides. -/
def fieldOf (name : String) : Option Field :=
  if foldName name = "OP" then some .op
  else if foldName name = "KEY" then some .key
  else if foldName name = "VALUE" then some .value
  else none

/-- Store a string into a field. -/
def setField (cmd : WalCommand) : Field → String → WalCommand
  | .op, s => { cmd with op := s }
  | .key, s => { cmd with key := s }
  | .value, s => { cmd with value := s }

/-- One member of the top-level object; `none` is a saved type error, which
later members cannot clear. -/
def storeMember (cmd : Option WalCommand) (m : String × JsonValue) : Option WalCommand :=
  match cmd, fieldOf m.1, m.2 with
  | none, _, _ => none
  | some c, none, _ => some c
  | some c, some f, .string s => some (setField c f s)
  | some c, some _, .null => some c
  | some _, some _, _ => none

/-- `d.value` into a zero `walCommand`. -/
def decodeWalCommand : JsonValue → Option WalCommand
  | .null => some ⟨"", "", ""⟩
  | .object ms => ms.foldl storeMember (some ⟨"", "", ""⟩)
  | _ => none

/-- `json.Unmarshal(payload, &cmd)` with `var cmd walCommand`: the decoded
command, or `none` for any syntax or type error. -/
def unmarshal (payload : List UInt8) : Option WalCommand :=
  (decodeJSON payload).bind decodeWalCommand

/-! ## No NUL byte is read

Every byte the decoder reads belongs to white space or to a token, and no
token holds a NUL byte: a string holds control bytes only escaped.  So a
payload with a NUL byte anywhere never decodes (`unmarshal_of_nul`).  Each
reader is taken once, leaves first. -/

/-- A reader that left `rest` of `bs` read no NUL byte on the way. -/
def ReadsNoNul (bs rest : List UInt8) : Prop := (0 : UInt8) ∈ bs → (0 : UInt8) ∈ rest

namespace ReadsNoNul

theorem refl (bs : List UInt8) : ReadsNoNul bs bs := id

theorem trans {a b c : List UInt8} (h1 : ReadsNoNul a b) (h2 : ReadsNoNul b c) :
    ReadsNoNul a c :=
  fun h => h2 (h1 h)

theorem cons {b : UInt8} {bs rest : List UInt8} (hb : b.toNat ≠ 0) (h : ReadsNoNul bs rest) :
    ReadsNoNul (b :: bs) rest := by
  intro h0
  rcases List.mem_cons.1 h0 with e | h0
  · subst e
    exact absurd rfl hb
  · exact h h0

/-- A reader given by an `if`: each branch that succeeds read no NUL byte. -/
theorem ite {p : Prop} [Decidable p] {α : Type} {bs : List UInt8} {x y : Option (α × List UInt8)}
    (hx : ∀ a r, x = some (a, r) → ReadsNoNul bs r) (hy : ∀ a r, y = some (a, r) → ReadsNoNul bs r) :
    ∀ a r, (if p then x else y) = some (a, r) → ReadsNoNul bs r := by
  split
  · exact hx
  · exact hy

end ReadsNoNul

theorem readsNoNul_skipSpace : ∀ bs : List UInt8, ReadsNoNul bs (skipSpace bs)
  | [] => .refl _
  | b :: bs => by
      rw [skipSpace]
      split_ifs with h
      · simp only [isSpace, Bool.or_eq_true, beq_iff_eq] at h
        exact .cons (by omega) (readsNoNul_skipSpace bs)
      · exact .refl _

theorem hexVal_ne_zero {b : UInt8} {d : Nat} (h : hexVal b = some d) : b.toNat ≠ 0 := by
  unfold hexVal at h
  dsimp only at h
  split_ifs at h <;> omega

theorem readsNoNul_hex4 {bs rest : List UInt8} {u : Nat} (h : hex4 bs = some (u, rest)) :
    ReadsNoNul bs rest := by
  match bs, h with
  | _ :: _ :: _ :: _ :: _, h =>
      simp only [hex4] at h
      split at h
      · cases h
        rename_i ha hb hc hd
        exact .cons (hexVal_ne_zero ha) (.cons (hexVal_ne_zero hb) (.cons (hexVal_ne_zero hc)
          (.cons (hexVal_ne_zero hd) (.refl _))))
      · cases h

theorem readsNoNul_unicodeEscape (u : Nat) (rest : List UInt8) :
    ReadsNoNul rest (unicodeEscape u rest).2 := by
  unfold unicodeEscape
  repeat' split
  any_goals exact .refl _
  -- the joined surrogate pair, which reads the second escape
  exact .cons (by omega) (.cons (by omega) (readsNoNul_hex4 ‹_›))

theorem readsNoNul_escapeStep {bs rest : List UInt8} {c : Char}
    (h : escapeStep bs = some (c, rest)) : ReadsNoNul bs rest := by
  match bs, h with
  | e :: bs, h =>
      by_cases h0 : e.toNat = 0
      · simp [escapeStep, h0] at h
      have leaf : ∀ (x a : Char) r, some (x, bs) = some (a, r) → ReadsNoNul (e :: bs) r := by
        rintro x a r ⟨⟩
        exact .cons h0 (.refl _)
      rw [escapeStep] at h
      revert h
      repeat' apply ReadsNoNul.ite (leaf _)
      apply ReadsNoNul.ite
      · intro c rest h
        obtain ⟨⟨u, r⟩, hr, he⟩ := Option.map_eq_some'.mp h
        have hrest : (unicodeEscape u r).2 = rest := congrArg Prod.snd he
        rw [← hrest]
        exact .cons h0 ((readsNoNul_hex4 hr).trans (readsNoNul_unicodeEscape u r))
      · rintro _ _ ⟨⟩

theorem inRange_ne_zero {lo hi : Nat} {b : UInt8} (hlo : 0 < lo) (h : inRange lo hi b = true) :
    b.toNat ≠ 0 := by
  simp only [inRange, Bool.and_eq_true, decide_eq_true_eq] at h
  omega

/-- A width given by an `if`: the branch taken read no NUL byte. -/
theorem readsNoNul_drop_ite {p : Prop} [Decidable p] {x y : Char × Nat} {bs : List UInt8}
    (hx : p → ReadsNoNul bs (bs.drop x.2)) (hy : ReadsNoNul bs (bs.drop y.2)) :
    ReadsNoNul bs (bs.drop (if p then x else y).2) := by
  split
  · exact hx ‹_›
  · exact hy

theorem readsNoNul_decodeRune {b : UInt8} (hb : b.toNat ≠ 0) (rest : List UInt8) :
    ReadsNoNul (b :: rest) ((b :: rest).drop (decodeRune (b :: rest)).2) := by
  have one : ∀ r, ReadsNoNul (b :: r) ((b :: r).drop 1) := fun _ => .cons hb (.refl _)
  have cont : ∀ {lo hi : Nat} {c : UInt8} {r s}, 0x80 ≤ lo → inRange lo hi c = true →
      ReadsNoNul r s → ReadsNoNul (c :: r) s := fun hlo h hr =>
    .cons (inRange_ne_zero (by omega) h) hr
  unfold decodeRune
  dsimp only
  refine readsNoNul_drop_ite (fun _ => one _) (readsNoNul_drop_ite (fun _ => one _)
    (readsNoNul_drop_ite (fun _ => ?_) (readsNoNul_drop_ite (fun _ => ?_)
      (readsNoNul_drop_ite (fun _ => ?_) (one _)))))
  -- two bytes
  · split
    · exact readsNoNul_drop_ite (fun h => .cons hb (cont le_rfl h (.refl _))) (one _)
    · exact one _
  -- three bytes
  · split
    · refine readsNoNul_drop_ite (fun h => ?_) (one _)
      rw [Bool.and_eq_true] at h
      exact .cons hb (cont (by split <;> decide) h.1 (cont le_rfl h.2 (.refl _)))
    · exact one _
  -- four bytes
  · split
    · refine readsNoNul_drop_ite (fun h => ?_) (one _)
      simp only [Bool.and_eq_true] at h
      exact .cons hb (cont (by split <;> decide) h.1.1 (cont le_rfl h.1.2
        (cont le_rfl h.2 (.refl _))))
    · exact one _

theorem readsNoNul_stringStep {bs rest : List UInt8} {x : Option Char}
    (h : stringStep bs = some (x, rest)) : ReadsNoNul bs rest := by
  match bs, h with
  | b :: bs, h =>
      by_cases h0 : b.toNat = 0
      · rw [stringStep, if_neg (by omega), if_neg (by omega), if_pos (by omega)] at h
        cases h
      simp only [stringStep] at h
      split_ifs at h
      · cases h; exact .cons h0 (.refl _)
      · obtain ⟨⟨c, r⟩, hr, he⟩ := Option.map_eq_some'.mp h
        cases he
        exact .cons h0 (readsNoNul_escapeStep hr)
      · cases h; exact .cons h0 (.refl _)
      · cases h; exact readsNoNul_decodeRune h0 bs

theorem readsNoNul_parseString {acc : List Char} {bs rest : List UInt8} {s : String}
    (h : parseString acc bs = some (s, rest)) : ReadsNoNul bs rest := by
  induction acc, bs using parseString.induct with
  | case1 acc bs hs => simp [parseString_eq, hs] at h
  | case2 acc bs r hs =>
      simp only [parseString_eq, hs, Option.some.injEq, Prod.mk.injEq] at h
      exact h.2 ▸ readsNoNul_stringStep hs
  | case3 acc bs c r hs ih =>
      rw [parseString_eq, hs] at h
      exact (readsNoNul_stringStep hs).trans (ih h)

theorem isDigit_ne_zero {b : UInt8} (h : isDigit b = true) : b.toNat ≠ 0 := by
  simp only [isDigit, Bool.and_eq_true, decide_eq_true_eq] at h
  omega

theorem readsNoNul_dropDigits : ∀ bs : List UInt8, ReadsNoNul bs (dropDigits bs)
  | [] => .refl _
  | b :: bs => by
      rw [dropDigits]
      split_ifs with h
      · exact .cons (isDigit_ne_zero h) (readsNoNul_dropDigits bs)
      · exact .refl _

theorem readsNoNul_digits1 {bs rest : List UInt8} (h : digits1 bs = some rest) :
    ReadsNoNul bs rest := by
  match bs, h with
  | b :: bs, h =>
      simp only [digits1] at h
      split_ifs at h with hd
      cases h
      exact .cons (isDigit_ne_zero hd) (readsNoNul_dropDigits bs)

theorem readsNoNul_parseNumber {bs rest : List UInt8} (h : parseNumber bs = some rest) :
    ReadsNoNul bs rest := by
  match bs, h with
  | b :: bs, h =>
      simp only [parseNumber, Option.bind_eq_some] at h
      obtain ⟨r1, h1, r2, h2, h3⟩ := h
      have hsign : ReadsNoNul (b :: bs) (if b.toNat = 0x2D then bs else b :: bs) := by
        split_ifs with hb
        · exact .cons (by omega) (.refl _)
        · exact .refl _
      have hint : ReadsNoNul (if b.toNat = 0x2D then bs else b :: bs) r1 := by
        revert h1
        generalize (if b.toNat = 0x2D then bs else b :: bs) = a
        intro h1
        match a, h1 with
        | c :: cs, h1 =>
            simp only [intPart] at h1
            split_ifs at h1 with hc hd <;> cases h1
            · exact .cons (by omega) (.refl _)
            · exact .cons (isDigit_ne_zero hd) (readsNoNul_dropDigits cs)
      have hfrac : ReadsNoNul r1 r2 := by
        match r1, h2 with
        | [], h2 => cases h2; exact .refl _
        | c :: cs, h2 =>
            simp only [fracPart] at h2
            split_ifs at h2 with hc
            · exact .cons (by omega) (readsNoNul_digits1 h2)
            · cases h2; exact .refl _
      have hexp : ReadsNoNul r2 rest := by
        match r2, h3 with
        | [], h3 => cases h3; exact .refl _
        | c :: cs, h3 =>
            simp only [expPart] at h3
            split_ifs at h3 with hc
            · have hc0 : c.toNat ≠ 0 := by omega
              match cs, h3 with
              | s :: cs', h3 =>
                  dsimp only at h3
                  split_ifs at h3 with hs
                  · exact .cons hc0 (.cons (by omega) (readsNoNul_digits1 h3))
                  · exact .cons hc0 (readsNoNul_digits1 h3)
            · cases h3; exact .refl _
      exact hsign.trans (hint.trans (hfrac.trans hexp))

theorem readsNoNul_parseLiteral {lit bs rest : List UInt8} (hl : (0 : UInt8) ∉ lit)
    (h : parseLiteral lit bs = some rest) : ReadsNoNul bs rest := by
  unfold parseLiteral at h
  split_ifs at h with hp
  cases h
  obtain ⟨t, rfl⟩ := List.isPrefixOf_iff_prefix.1 hp
  intro h0
  rw [List.drop_left]
  exact (List.mem_append.1 h0).resolve_left hl

/-- White space, then a byte other than NUL. -/
theorem readsNoNul_skipSpace_cons {bs r : List UInt8} {c : UInt8} (h : skipSpace bs = c :: r)
    (hc : c.toNat ≠ 0) : ReadsNoNul bs r :=
  (h ▸ readsNoNul_skipSpace bs).trans (.cons hc (.refl _))

section Nested

variable {pv : List UInt8 → Option (JsonValue × List UInt8)}

theorem readsNoNul_parseMembers (hpv : ∀ bs v r, pv bs = some (v, r) → ReadsNoNul bs r) :
    ∀ {n : Nat} {acc : List (String × JsonValue)} {bs rest : List UInt8}
      {ms : List (String × JsonValue)},
      parseMembers pv n acc bs = some (ms, rest) → ReadsNoNul bs rest
  | n + 1, acc, b :: bs, rest, ms, h => by
      simp only [parseMembers] at h
      split_ifs at h with hb
      split at h
      · cases h
      next k r1 hk =>
      split at h
      next c r2 hc =>
        split_ifs at h with hc'
        split at h
        · cases h
        next v r3 hv =>
        split at h
        next d r4 hd =>
          have pre : ReadsNoNul (b :: bs) (d :: r4) :=
            .cons (by omega) <| (readsNoNul_parseString hk).trans <|
              (readsNoNul_skipSpace_cons hc (by omega)).trans <|
                (readsNoNul_skipSpace r2).trans <| (hpv _ _ _ hv).trans (hd ▸ readsNoNul_skipSpace r3)
          split_ifs at h with h1 h2
          · exact pre.trans (.cons (by omega)
              ((readsNoNul_skipSpace r4).trans (readsNoNul_parseMembers hpv h)))
          · cases h
            exact pre.trans (.cons (by omega) (.refl _))
        next => cases h
      next => cases h

theorem readsNoNul_parseElements (hpv : ∀ bs v r, pv bs = some (v, r) → ReadsNoNul bs r) :
    ∀ {n : Nat} {acc : List JsonValue} {bs rest : List UInt8} {vs : List JsonValue},
      parseElements pv n acc bs = some (vs, rest) → ReadsNoNul bs rest
  | n + 1, acc, bs, rest, vs, h => by
      simp only [parseElements] at h
      split at h
      · cases h
      next v r1 hv =>
      split at h
      next d r2 hd =>
        have pre : ReadsNoNul bs (d :: r2) :=
          (hpv _ _ _ hv).trans (hd ▸ readsNoNul_skipSpace r1)
        split_ifs at h with h1 h2
        · exact pre.trans (.cons (by omega)
            ((readsNoNul_skipSpace r2).trans (readsNoNul_parseElements hpv h)))
        · cases h
          exact pre.trans (.cons (by omega) (.refl _))
      next => cases h

end Nested

theorem readsNoNul_parseValue :
    ∀ {n : Nat} {bs rest : List UInt8} {v : JsonValue},
      parseValue n bs = some (v, rest) → ReadsNoNul bs rest
  | n + 1, b :: bs, rest, v, h => by
      have ih : ∀ bs v r, parseValue n bs = some (v, r) → ReadsNoNul bs r :=
        fun _ _ _ => readsNoNul_parseValue
      by_cases h0 : b.toNat = 0
      · simp [parseValue, h0, isDigit] at h
      simp only [parseValue] at h
      revert h
      repeat' apply ReadsNoNul.ite
      -- an object
      · intro v r h
        split at h
        next c r1 hc =>
          split_ifs at h with hc'
          · cases h
            exact .cons h0 (readsNoNul_skipSpace_cons hc (by omega))
          · obtain ⟨⟨ms, r'⟩, hm, he⟩ := Option.map_eq_some'.mp h
            cases he
            exact .cons h0 ((hc ▸ readsNoNul_skipSpace bs).trans (readsNoNul_parseMembers ih hm))
        next => cases h
      -- an array
      · intro v r h
        split at h
        next c r1 hc =>
          split_ifs at h with hc'
          · cases h
            exact .cons h0 (readsNoNul_skipSpace_cons hc (by omega))
          · obtain ⟨⟨vs, r'⟩, hm, he⟩ := Option.map_eq_some'.mp h
            cases he
            exact .cons h0 ((hc ▸ readsNoNul_skipSpace bs).trans (readsNoNul_parseElements ih hm))
        next => cases h
      -- a string
      · intro v r h
        obtain ⟨⟨s, r'⟩, hs, he⟩ := Option.map_eq_some'.mp h
        cases he
        exact .cons h0 (readsNoNul_parseString hs)
      -- `true`, `false`, `null`
      iterate 3
        · intro v r h
          obtain ⟨r', hl, he⟩ := Option.map_eq_some'.mp h
          cases he
          exact .cons h0 (readsNoNul_parseLiteral (by decide) hl)
      -- a number
      · intro v r h
        obtain ⟨r', hl, he⟩ := Option.map_eq_some'.mp h
        cases he
        exact readsNoNul_parseNumber hl
      · rintro _ _ ⟨⟩

/-- `checkValid` refuses a NUL byte anywhere. -/
theorem not_nul_of_decodeJSON {data : List UInt8} {v : JsonValue} (h : decodeJSON data = some v) :
    (0 : UInt8) ∉ data := by
  unfold decodeJSON at h
  split at h
  next v' r hv =>
    split_ifs at h with hr
    intro h0
    have := ((readsNoNul_skipSpace data).trans (readsNoNul_parseValue hv)).trans
      (readsNoNul_skipSpace r) h0
    rw [hr] at this
    exact List.not_mem_nil _ this
  next => cases h

/-- No payload with a NUL byte decodes. -/
theorem unmarshal_of_nul {payload : List UInt8} (h : (0 : UInt8) ∈ payload) :
    unmarshal payload = none := by
  unfold unmarshal
  cases hd : decodeJSON payload with
  | none => rfl
  | some v => exact absurd h (not_nul_of_decodeJSON hd)

end KVStore.Json
