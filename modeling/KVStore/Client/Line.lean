/-
# `KVStore.Client.Line` — what one line of standard input asks the client to do

The client's line mode (`stdinMode`) reads standard input a line at a time,
trims the line with `strings.TrimSpace`, cuts it into fields with
`strings.Fields`, upper-cases the first field with `strings.ToUpper` and
switches on it.  Standard input is text here, a list of characters: a field
that is not valid UTF-8 could not travel in a protobuf `string` field anyway.
`unicode.ToUpper` above ASCII reads Unicode's case table, which the model does
not copy: it is the parameter `upper`, and every result below holds whatever
the table says.

## What is proved

* `fields_eq_iff`: `strings.Fields` cuts a line into exactly the words it
  spells: its fields are `ws` iff the line is the words `ws`, each nonempty
  and free of white space, with white space around them and at least one
  rune of it between two of them (`Spaced`).
* `lineAction_skip_iff`: the loop checks twice for an empty line, on the
  trimmed text and on its fields; a line is skipped exactly when it is all
  white space, and the second check never fires.
* `lineAction_call_iff`: the client makes a call exactly when the line's
  fields are a command word that upper-cases to the call's name, the call's
  arguments, and anything after them: the fields past those a call needs are
  dropped.  `STOP` alone insists on its arity (`lineAction_stop_iff`).
* `lineAction_call_words`: every key, value and scan bound the client sends
  is a field, nonempty and without white space; the servers take any string,
  but this client never sends an empty key or one with a blank in it.
-/
import KVStore.Service
import Mathlib.Data.List.DropRight

namespace KVStore.Client

/-! ## `unicode.IsSpace`, `strings.TrimSpace`, `strings.Fields`, `strings.ToUpper` -/

/-- Unicode's White_Space property as Go's `unicode.White_Space` table holds
it: ranges given by their low end, high end and stride. -/
def whiteSpace : List (Nat × Nat × Nat) :=
  [(0x0009, 0x000d, 1), (0x0020, 0x0085, 101), (0x00a0, 0x1680, 5600), (0x2000, 0x200a, 1),
    (0x2028, 0x2029, 1), (0x202f, 0x205f, 48), (0x3000, 0x3000, 1)]

/-- `unicode.is16`, its linear search: the first range that does not end below
`r` decides. -/
def is16 (r : Nat) : List (Nat × Nat × Nat) → Bool
  | [] => false
  | (lo, hi, stride) :: ranges =>
    if r < lo then false
    else if r ≤ hi then stride == 1 || (r - lo) % stride == 0
    else is16 r ranges

/-- `unicode.IsSpace`: a switch on Latin-1, and above it the White_Space table
past its two Latin-1 ranges (`isExcludingLatin`, `LatinOffset` 2). -/
def isSpace (c : Char) : Bool :=
  if c.toNat ≤ 0xFF then [0x09, 0x0a, 0x0b, 0x0c, 0x0d, 0x20, 0x85, 0xa0].contains c.toNat
  else is16 c.toNat (whiteSpace.drop 2)

/-- `strings.TrimSpace`: `TrimFunc(s, unicode.IsSpace)`, white space cut off
both ends (the ASCII fast path in front of it cuts the same). -/
def trimSpace (s : String) : String := ⟨(s.data.dropWhile isSpace).rdropWhile isSpace⟩

/-- The loop of `strings.FieldsFunc(s, unicode.IsSpace)`, which `strings.Fields`
runs on a line that is not ASCII and matches on every other: `start` is the
field being read, if any (Go's `start ≥ 0`).  A white-space rune closes it,
any other rune extends it or opens one, and the end of the line closes it. -/
def fieldsFrom (start : Option (List Char)) : List Char → List (List Char)
  | [] => start.toList
  | c :: cs =>
    if isSpace c then start.toList ++ fieldsFrom none cs
    else fieldsFrom (some (start.getD [] ++ [c])) cs

/-- `strings.Fields`. -/
def fields (s : String) : List String := (fieldsFrom none s.data).map String.mk

/-- `unicode.ToUpper`: ASCII letters by arithmetic, any other rune by Unicode's
case table (`To(UpperCase, r)`), the parameter `upper`. -/
def toUpperRune (upper : Char → Char) (c : Char) : Char :=
  if c.toNat ≤ 0x7F then
    if 'a' ≤ c ∧ c ≤ 'z' then Char.ofNat (c.toNat - 32) else c
  else upper c

/-- `strings.ToUpper`: `unicode.ToUpper` on every rune. -/
def toUpper (upper : Char → Char) (s : String) : String := ⟨s.data.map (toUpperRune upper)⟩

/-! ## The switch of `stdinMode` -/

/-- An RPC of `kvpb.KVSClient`: a point request, or `Scan`. -/
inductive Call where
  | point (r : Request)
  | scan (startKey endKey : String)
deriving DecidableEq, Repr

/-- What the loop does with a line before it makes any RPC. -/
inductive Action where
  /-- `continue` on an empty line. -/
  | skip
  /-- `log.Printf` of a usage message, then `continue`. -/
  | complain (msg : String)
  /-- An RPC. -/
  | call (c : Call)
  /-- `STOP`: return. -/
  | stop
  /-- `log.Printf("unknown command: %s", cmd)`. -/
  | unknown (cmd : String)
deriving DecidableEq, Repr

/-- The check each RPC command makes first: at least `n` fields, or the
usage message. -/
def requireArgs (n : Nat) (usage : String) (parts : List String) (c : Call) : Action :=
  if parts.length < n then .complain usage else .call c

/-- The `switch cmd` of the loop, on the upper-cased command word and all the
fields.  `STOP` is the one case that wants an exact count. -/
def dispatch (cmd : String) (parts : List String) : Action :=
  if cmd = "PUT" then
    requireArgs 3 "PUT requires 2 arguments: key value" parts
      (.point (.put (parts.getD 1 "") (parts.getD 2 "")))
  else if cmd = "GET" then
    requireArgs 2 "GET requires 1 argument: key" parts (.point (.get (parts.getD 1 "")))
  else if cmd = "SWAP" then
    requireArgs 3 "SWAP requires 2 arguments: key value" parts
      (.point (.swap (parts.getD 1 "") (parts.getD 2 "")))
  else if cmd = "DELETE" then
    requireArgs 2 "DELETE requires 1 argument: key" parts (.point (.delete (parts.getD 1 "")))
  else if cmd = "SCAN" then
    requireArgs 3 "SCAN requires 2 arguments: start_key end_key" parts
      (.scan (parts.getD 1 "") (parts.getD 2 ""))
  else if cmd = "STOP" then
    if parts.length ≠ 1 then .complain "STOP takes no arguments" else .stop
  else .unknown cmd

/-- The body of the loop of `stdinMode` up to its RPC. -/
def lineAction (upper : Char → Char) (text : String) : Action :=
  let line := trimSpace text
  if line = "" then .skip
  else
    match fields line with
    | [] => .skip
    | w :: rest => dispatch (toUpper upper w) (w :: rest)

/-- The command word of a call, as the usage messages spell it. -/
def Call.name : Call → String
  | .point (.put _ _) => "PUT"
  | .point (.get _) => "GET"
  | .point (.swap _ _) => "SWAP"
  | .point (.delete _) => "DELETE"
  | .scan _ _ => "SCAN"

/-- The arguments of a call, in the order a line gives them. -/
def Call.args : Call → List String
  | .point (.put k v) => [k, v]
  | .point (.get k) => [k]
  | .point (.swap k v) => [k, v]
  | .point (.delete k) => [k]
  | .scan startKey endKey => [startKey, endKey]

/-! ## What `strings.Fields` returns -/

/-- A run of white space. -/
def Blank (g : List Char) : Prop := ∀ c ∈ g, isSpace c = true

/-- A word: nonempty, with no white space. -/
def Word (w : List Char) : Prop := w ≠ [] ∧ ∀ c ∈ w, isSpace c = false

/-- `Spaced ws cs`: the text `cs` spells the words `ws`: white space, then
each word followed by text that is empty or starts with white space. -/
inductive Spaced : List (List Char) → List Char → Prop
  | blank {g : List Char} : Blank g → Spaced [] g
  | word {g w rest : List Char} {ws : List (List Char)} : Blank g → Word w →
      (∀ c ∈ rest.head?, isSpace c = true) → Spaced ws rest → Spaced (w :: ws) (g ++ w ++ rest)

theorem Spaced.cons_space {c : Char} {ws : List (List Char)} {cs : List Char}
    (hc : isSpace c = true) : Spaced ws cs → Spaced ws (c :: cs)
  | .blank hg => .blank (List.forall_mem_cons.2 ⟨hc, hg⟩)
  | .word hg hw hr h => .word (g := c :: _) (List.forall_mem_cons.2 ⟨hc, hg⟩) hw hr h

theorem Spaced.words {ws : List (List Char)} {cs : List Char} (h : Spaced ws cs) :
    ∀ w ∈ ws, Word w := by
  induction h with
  | blank => simp
  | word _ hw _ _ ih => exact List.forall_mem_cons.2 ⟨hw, ih⟩

theorem fieldsFrom_blank {g : List Char} (hg : Blank g) (start : Option (List Char)) :
    fieldsFrom start g = start.toList := by
  induction g generalizing start with
  | nil => rfl
  | cons c g ih =>
      rw [fieldsFrom, if_pos (hg c (.head _)), ih (fun x hx => hg x (.tail _ hx))]
      simp

theorem fieldsFrom_blank_append {g : List Char} (hg : Blank g) (cs : List Char) :
    fieldsFrom none (g ++ cs) = fieldsFrom none cs := by
  induction g with
  | nil => rfl
  | cons c g ih =>
      rw [List.cons_append, fieldsFrom, if_pos (hg c (.head _)),
        ih (fun x hx => hg x (.tail _ hx))]
      rfl

theorem fieldsFrom_append_blank {g : List Char} (hg : Blank g) (start : Option (List Char))
    (cs : List Char) : fieldsFrom start (cs ++ g) = fieldsFrom start cs := by
  induction cs generalizing start with
  | nil => exact fieldsFrom_blank hg start
  | cons c cs ih => rw [List.cons_append, fieldsFrom, fieldsFrom, ih, ih]

theorem fieldsFrom_word_append {w : List Char} (hw : ∀ c ∈ w, isSpace c = false)
    (f cs : List Char) : fieldsFrom (some f) (w ++ cs) = fieldsFrom (some (f ++ w)) cs := by
  induction w generalizing f with
  | nil => simp
  | cons c w ih =>
      rw [List.cons_append, fieldsFrom, if_neg (by simp [hw c (.head _)]),
        ih (fun x hx => hw x (.tail _ hx))]
      simp

theorem fieldsFrom_some_of_head {rest : List Char} (h : ∀ c ∈ rest.head?, isSpace c = true)
    (f : List Char) : fieldsFrom (some f) rest = f :: fieldsFrom none rest := by
  cases rest with
  | nil => rfl
  | cons c rest =>
      have hc : isSpace c = true := h c rfl
      simp [fieldsFrom, hc]

theorem fieldsFrom_of_spaced {ws : List (List Char)} {cs : List Char} (h : Spaced ws cs) :
    fieldsFrom none cs = ws := by
  induction h with
  | blank hg => exact fieldsFrom_blank hg none
  | @word g w rest ws hg hw hr _ ih =>
      obtain ⟨c, w, rfl⟩ := List.exists_cons_of_ne_nil hw.1
      have hc : isSpace c = false := hw.2 c (.head _)
      rw [List.append_assoc, fieldsFrom_blank_append hg, List.cons_append, fieldsFrom, if_neg (by simp [hc]),
        fieldsFrom_word_append (fun x hx => hw.2 x (.tail _ hx)), fieldsFrom_some_of_head hr, ih]
      rfl

theorem spaced_fieldsFrom (cs : List Char) :
    ∀ start : Option (List Char), (∀ f ∈ start, Word f) →
      Spaced (fieldsFrom start cs) (start.getD [] ++ cs) := by
  induction cs with
  | nil =>
      rintro (_ | f) hf
      · exact .blank (by simp [Blank])
      · exact .word (g := []) (by simp [Blank]) (hf f rfl) (by simp) (.blank (by simp [Blank]))
  | cons c cs ih =>
      rintro (_ | f) hf
      · by_cases hc : isSpace c
        · simpa [fieldsFrom, hc] using (ih none (by simp)).cons_space hc
        · simpa [fieldsFrom, hc] using ih (some [c]) (by simp [Word, hc])
      · by_cases hc : isSpace c
        · simpa [fieldsFrom, hc] using
            Spaced.word (g := []) (by simp [Blank]) (hf f rfl) (by simp [hc])
              ((ih none (by simp)).cons_space hc)
        · have hw : Word (f ++ [c]) := ⟨by simp, fun x hx => by
            rcases List.mem_append.1 hx with hx | hx
            · exact (hf f rfl).2 x hx
            · rw [List.mem_singleton.1 hx]
              simpa using hc⟩
          simpa [fieldsFrom, hc] using ih (some (f ++ [c])) (by simpa using hw)

/-- `strings.Fields` returns exactly the words the line spells. -/
theorem fields_eq_iff (s : String) (ws : List String) :
    fields s = ws ↔ Spaced (ws.map String.data) s.data := by
  constructor
  · rintro rfl
    simpa [fields, Function.comp_def] using spaced_fieldsFrom s.data none (by simp)
  · intro h
    rw [fields, fieldsFrom_of_spaced h, List.map_map]
    exact List.map_id'' (fun _ => rfl) ws

theorem fields_words (s : String) : ∀ w ∈ fields s, Word w.data := by
  intro w hw
  obtain ⟨l, hl, rfl⟩ := List.mem_map.1 hw
  exact (spaced_fieldsFrom s.data none (by simp)).words l hl

theorem fieldsFrom_eq_nil_iff {start : Option (List Char)} {cs : List Char} :
    fieldsFrom start cs = [] ↔ start = none ∧ Blank cs := by
  induction cs generalizing start with
  | nil => cases start <;> simp [fieldsFrom, Blank]
  | cons c cs ih => by_cases hc : isSpace c <;> cases start <;> simp [fieldsFrom, hc, ih, Blank]

theorem fields_eq_nil_iff (s : String) : fields s = [] ↔ Blank s.data := by
  simp [fields, fieldsFrom_eq_nil_iff]

theorem fields_trimSpace (s : String) : fields (trimSpace s) = fields s := by
  have hl : Blank (s.data.takeWhile isSpace) := fun _ hx => List.mem_takeWhile_imp hx
  have hr : Blank ((s.data.dropWhile isSpace).rtakeWhile isSpace) :=
    fun _ hx => List.mem_rtakeWhile_imp hx
  have hsplit : ∀ l : List Char, l.rdropWhile isSpace ++ l.rtakeWhile isSpace = l := fun l => by
    rw [List.rdropWhile, List.rtakeWhile, ← List.reverse_append, List.takeWhile_append_dropWhile,
      List.reverse_reverse]
  simp only [fields, trimSpace]
  conv_rhs => rw [← List.takeWhile_append_dropWhile isSpace s.data, fieldsFrom_blank_append hl,
    ← hsplit (s.data.dropWhile isSpace), fieldsFrom_append_blank hr]

theorem trimSpace_eq_empty_iff (s : String) : trimSpace s = "" ↔ Blank s.data := by
  have h : ∀ l : List Char, (∀ x ∈ l.dropWhile isSpace, isSpace x = true) ↔
      ∀ x ∈ l, isSpace x = true := fun l => by
    rw [← List.dropWhile_eq_nil_iff, List.dropWhile_idempotent, List.dropWhile_eq_nil_iff]
  rw [trimSpace, String.ext_iff]
  simpa [List.rdropWhile_eq_nil_iff, Blank] using h s.data

/-! ## What a line does -/

theorem lineAction_of_blank {upper : Char → Char} {text : String} (h : Blank text.data) :
    lineAction upper text = .skip := by
  simp [lineAction, (trimSpace_eq_empty_iff text).2 h]

theorem lineAction_of_fields {upper : Char → Char} {text w : String} {rest : List String}
    (h : fields text = w :: rest) : lineAction upper text = dispatch (toUpper upper w) (w :: rest) := by
  have hne : trimSpace text ≠ "" := fun he => by
    have hn := (fields_eq_nil_iff text).2 ((trimSpace_eq_empty_iff text).1 he)
    rw [h] at hn
    exact List.cons_ne_nil _ _ hn
  have hf := fields_trimSpace text
  rw [h] at hf
  simp only [lineAction, if_neg hne, hf]

/-- What the switch can answer on the command word `cmd` and the fields
`parts`: a usage message; a call named by `cmd` whose arguments follow the
command word; `STOP` on a line of one field; or `cmd` unknown. -/
def Answers (cmd : String) (parts : List String) : Action → Prop
  | .skip => False
  | .complain _ => True
  | .call c => cmd = c.name ∧ ∃ w extra, parts = w :: (c.args ++ extra)
  | .stop => cmd = "STOP" ∧ parts.length = 1
  | .unknown u => u = cmd

theorem requireArgs_answers {cmd usage : String} {parts : List String} {n : Nat} {c : Call}
    (hc : cmd = c.name) (hs : n ≤ parts.length → ∃ w extra, parts = w :: (c.args ++ extra)) :
    Answers cmd parts (requireArgs n usage parts c) := by
  unfold requireArgs
  split_ifs with h
  · trivial
  · exact ⟨hc, hs (not_lt.1 h)⟩

theorem dispatch_answers (cmd : String) (parts : List String) :
    Answers cmd parts (dispatch cmd parts) := by
  have h3 : 3 ≤ parts.length →
      ∃ w extra, parts = w :: ([parts.getD 1 "", parts.getD 2 ""] ++ extra) := fun h =>
    match parts, h with
    | w :: _ :: _ :: extra, _ => ⟨w, extra, rfl⟩
  have h2 : 2 ≤ parts.length → ∃ w extra, parts = w :: ([parts.getD 1 ""] ++ extra) := fun h =>
    match parts, h with
    | w :: _ :: extra, _ => ⟨w, extra, rfl⟩
  rw [dispatch]
  by_cases hp : cmd = "PUT"
  · rw [if_pos hp]; exact requireArgs_answers hp h3
  rw [if_neg hp]
  by_cases hg : cmd = "GET"
  · rw [if_pos hg]; exact requireArgs_answers hg h2
  rw [if_neg hg]
  by_cases hw : cmd = "SWAP"
  · rw [if_pos hw]; exact requireArgs_answers hw h3
  rw [if_neg hw]
  by_cases hd : cmd = "DELETE"
  · rw [if_pos hd]; exact requireArgs_answers hd h2
  rw [if_neg hd]
  by_cases hs : cmd = "SCAN"
  · rw [if_pos hs]; exact requireArgs_answers hs h3
  rw [if_neg hs]
  by_cases ht : cmd = "STOP"
  · rw [if_pos ht]
    split_ifs with h
    · trivial
    · exact ⟨ht, not_not.1 h⟩
  · rw [if_neg ht]
    rfl

/-- The loop skips a line exactly when it is all white space: trimming and
then testing the fields for emptiness tests the same thing twice. -/
theorem lineAction_skip_iff (upper : Char → Char) (text : String) :
    lineAction upper text = .skip ↔ Blank text.data := by
  refine ⟨fun h => ?_, lineAction_of_blank⟩
  rw [← fields_eq_nil_iff]
  cases hf : fields text with
  | nil => rfl
  | cons w rest =>
      have ha := dispatch_answers (toUpper upper w) (w :: rest)
      rw [← lineAction_of_fields hf, h] at ha
      exact ha.elim

theorem dispatch_call_iff {cmd w : String} {rest : List String} {c : Call} :
    dispatch cmd (w :: rest) = .call c ↔ cmd = c.name ∧ ∃ extra, rest = c.args ++ extra := by
  constructor
  · intro h
    have ha := dispatch_answers cmd (w :: rest)
    rw [h] at ha
    obtain ⟨hc, w', extra, he⟩ := ha
    exact ⟨hc, extra, (List.cons.inj he).2⟩
  · rintro ⟨rfl, extra, rfl⟩
    rcases c with ((k | k) | (k | k)) | ⟨a, z⟩ <;>
      simp [dispatch, requireArgs, Call.name, Call.args]

theorem lineAction_call_fields {upper : Char → Char} {text : String} {c : Call}
    (h : lineAction upper text = .call c) :
    ∃ w extra, fields text = w :: (c.args ++ extra) ∧ toUpper upper w = c.name := by
  cases hf : fields text with
  | nil =>
      rw [lineAction_of_blank ((fields_eq_nil_iff text).1 hf)] at h
      cases h
  | cons w rest =>
      rw [lineAction_of_fields hf, dispatch_call_iff] at h
      obtain ⟨hw, extra, rfl⟩ := h
      exact ⟨w, extra, rfl, hw⟩

/-- The client makes a call exactly when the line's fields are a command word
that upper-cases to the call's name, then the call's arguments, then any
fields at all, which it drops. -/
theorem lineAction_call_iff (upper : Char → Char) (text : String) (c : Call) :
    lineAction upper text = .call c ↔
      ∃ w extra, fields text = w :: (c.args ++ extra) ∧ toUpper upper w = c.name :=
  ⟨lineAction_call_fields, fun ⟨_, extra, hf, hw⟩ => by
    rw [lineAction_of_fields hf, dispatch_call_iff]
    exact ⟨hw, extra, rfl⟩⟩

example : lineAction id "  put  k  v  extra " = .call (.point (.put "k" "v")) := by decide

/-- `STOP` is obeyed only alone on its line: unlike the commands that make a
call, a `STOP` with fields after it is refused, and the loop goes on. -/
theorem lineAction_stop_iff (upper : Char → Char) (text : String) :
    lineAction upper text = .stop ↔ ∃ w, fields text = [w] ∧ toUpper upper w = "STOP" := by
  cases hf : fields text with
  | nil => simp [lineAction_of_blank ((fields_eq_nil_iff text).1 hf)]
  | cons w rest =>
      rw [lineAction_of_fields hf]
      constructor
      · intro h
        have ha := dispatch_answers (toUpper upper w) (w :: rest)
        rw [h] at ha
        obtain ⟨hc, hl⟩ := ha
        exact ⟨w, by simpa using hl, hc⟩
      · rintro ⟨w', he, hw⟩
        obtain ⟨rfl, rfl⟩ := List.cons.inj he
        simp [dispatch, hw]

example : lineAction id "STOP now" = .complain "STOP takes no arguments" := by decide

/-- Every argument the client sends is a field of its line: nonempty and
free of white space. -/
theorem lineAction_call_words {upper : Char → Char} {text : String} {c : Call}
    (h : lineAction upper text = .call c) : ∀ a ∈ c.args, Word a.data := by
  obtain ⟨w, extra, hf, -⟩ := lineAction_call_fields h
  intro a ha
  exact fields_words text a (by rw [hf]; exact List.mem_cons_of_mem _ (List.mem_append_left _ ha))

theorem lineAction_call_words_put :
    lineAction id "PUT a 1" = .call (.point (.put "a" "1")) ∧
      ∀ a ∈ (Call.point (.put "a" "1")).args, Word a.data :=
  have h : lineAction id "PUT a 1" = .call (.point (.put "a" "1")) := by decide
  ⟨h, lineAction_call_words h⟩

end KVStore.Client
