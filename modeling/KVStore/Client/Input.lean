/-
# `KVStore.Client.Input` — the lines `stdinMode` reads from standard input

`stdinMode` reads standard input with a `bufio.Scanner` in its default mode,
`ScanLines`, over a buffer it sets to 1 MiB, which is also the largest token:

    scanner.Buffer(make([]byte, 1024*1024), 1024*1024)

`ScanLines` returns each line at its newline, without a carriage return at its
end, and a last line without a newline at the end of the input.  A line that
fills the buffer with no newline in it stops the scanner with `ErrTooLong`;
after the loop, `scanner.Err()` reports it and the client exits through
`log.Fatalf`, unless a `STOP` returned first.

## What is proved

* `scanLinesFrom_writeLines`: lines written one to a line, each ending in
  `\n` or in `\r\n`, the two mixed as they come, are read back as they were
  written, and so is a last line with no newline after it, as long as each,
  with the carriage return of its ending, is shorter than the buffer; at the
  first line of 1 MiB or more after them the scanner stops with `ErrTooLong`,
  the lines before it read (`scanLinesFrom_tooLong` is that line).
* `stdinRun_writeLines`: so the client serves the lines of its input, whatever
  ending each has; a line of 1 MiB or more ends it with a scanner error after the
  lines before it, unless one of them was `STOP`, and neither that line nor any
  after it reaches the server.  The comment beside the `Buffer` call reads it
  as room for scan results; it bounds the lines the client reads, not what it
  prints.
* `scanLinesFrom_bytes`: every line the scanner returns is shorter than its
  buffer, whatever the input.

Standard input is text here, as in `KVStore.Client.Line`; a line's size is the
number of its UTF-8 bytes (`goBytes`).
-/
import KVStore.Client.Session

namespace KVStore.Client

/-! ## `bufio.Scanner` with `ScanLines` -/

/-- The buffer the client gives its scanner, and its `maxTokenSize`:
1024 * 1024 bytes. -/
def maxTokenSize : Nat := 1048576

/-- `dropCR`: a carriage return at the end of a line is not part of it. -/
def dropCR (cs : List Char) : List Char :=
  if cs.getLast? = some '\r' then cs.dropLast else cs

/-- The scanner over the rest of standard input, `cur` being the line read so
far and `n` its size in bytes: the lines `Scan` returns, and whether it then
stopped with `ErrTooLong`, which it does once a line fills the buffer with no
newline in it. -/
def scanLinesFrom (cur : List Char) (n : Nat) : List Char → List String × Bool
  | [] => (if cur = [] then [] else [⟨dropCR cur⟩], false)
  | c :: cs =>
    if c = '\n' then (⟨dropCR cur⟩ :: (scanLinesFrom [] 0 cs).1, (scanLinesFrom [] 0 cs).2)
    else if maxTokenSize ≤ n + (encodeRune c).length then ([], true)
    else scanLinesFrom (cur ++ [c]) (n + (encodeRune c).length) cs

variable {S E : Type}

/-- The lines the scanner returns from standard input, each with the
environment its RPC, if it makes one, meets: the `i`-th meets `env i`. -/
def stdinLines (env : Nat → E) (input : String) : List (String × E) :=
  (scanLinesFrom [] 0 input.data).1.enum.map fun x => (x.2, env x.1)

/-- `stdinMode` over its standard input: the session its loop leaves, and
whether it then ends with `log.Fatalf("scanner error: %v", err)`, which it does
when the scanner stopped with an error and no `STOP` returned first. -/
def stdinRun (b : Backend S E) (upper : Char → Char) (ss : Session S) (env : Nat → E)
    (input : String) : Session S × Bool :=
  (stdinMode b upper ss (stdinLines env input),
    (scanLinesFrom [] 0 input.data).2 &&
      !((scanLinesFrom [] 0 input.data).1.any fun l => lineAction upper l == .stop))

/-! ## Reading lines back -/

/-- Lines written one to a line, each with its own ending: `\r\n` where its
flag is set, else `\n`. -/
def writeLines (ls : List (String × Bool)) : List Char :=
  ls.flatMap fun l => l.1.data ++ (if l.2 then ['\r', '\n'] else ['\n'])

/-- A line the scanner reads back whole when written with the ending `crlf`
chooses: no newline in it, no carriage return at its end, and shorter than the
buffer with the carriage return of its ending. -/
structure ShortLine (crlf : Bool) (l : String) : Prop where
  no_newline : '\n' ∉ l.data
  no_cr : l.data.getLast? ≠ some '\r'
  short : (goBytes l).length + (if crlf then 1 else 0) < maxTokenSize

theorem dropCR_of_getLast {cs : List Char} (h : cs.getLast? ≠ some '\r') : dropCR cs = cs :=
  if_neg h

theorem dropCR_append_cr (cs : List Char) : dropCR (cs ++ ['\r']) = cs := by
  simp [dropCR]

theorem bytes_dropCR_le (cs : List Char) :
    ((dropCR cs).flatMap encodeRune).length ≤ (cs.flatMap encodeRune).length := by
  unfold dropCR
  split
  · obtain ⟨t, ht⟩ := List.dropLast_prefix cs
    conv_rhs => rw [← ht, List.flatMap_append, List.length_append]
    exact Nat.le_add_right _ _
  · exact le_rfl

/-- Every line the scanner returns is shorter than its buffer. -/
theorem scanLinesFrom_bytes : ∀ (input : List Char) {cur : List Char} {n : Nat},
    (cur.flatMap encodeRune).length = n → n < maxTokenSize →
      ∀ l ∈ (scanLinesFrom cur n input).1, (goBytes l).length < maxTokenSize
  | [], cur, n, hn, hlt, l, hl => by
      rw [scanLinesFrom] at hl
      split_ifs at hl
      · cases hl
      · rw [List.mem_singleton.1 hl, goBytes_mk]
        exact lt_of_le_of_lt (bytes_dropCR_le cur) (hn ▸ hlt)
  | c :: cs, cur, n, hn, hlt, l, hl => by
      rw [scanLinesFrom] at hl
      split_ifs at hl with hc hm
      · rcases List.mem_cons.1 hl with rfl | hl
        · rw [goBytes_mk]
          exact lt_of_le_of_lt (bytes_dropCR_le cur) (hn ▸ hlt)
        · exact scanLinesFrom_bytes cs rfl (by decide) l hl
      · cases hl
      · exact scanLinesFrom_bytes cs (by simp [List.flatMap_append, hn])
          (by omega) l hl

theorem mem_stdinLines {env : Nat → E} {input : String} {x : String × E}
    (h : x ∈ stdinLines env input) : x.1 ∈ (scanLinesFrom [] 0 input.data).1 := by
  obtain ⟨y, hy, rfl⟩ := List.mem_map.1 h
  exact List.snd_mem_of_mem_enum hy

/-- Reading a stretch without a newline that keeps the line under the buffer
only extends the line. -/
theorem scanLinesFrom_append {w : List Char} (hw : '\n' ∉ w) :
    ∀ {cur : List Char} {n : Nat} (rest : List Char),
      n + (w.flatMap encodeRune).length < maxTokenSize →
      scanLinesFrom cur n (w ++ rest) =
        scanLinesFrom (cur ++ w) (n + (w.flatMap encodeRune).length) rest := by
  induction w with
  | nil => simp
  | cons c w ih =>
      intro cur n rest hn
      have hc : c ≠ '\n' := fun e => hw (e ▸ .head _)
      rw [List.flatMap_cons, List.length_append] at hn
      rw [List.cons_append, scanLinesFrom, if_neg hc, if_neg (by omega),
        ih (fun m => hw (.tail _ m)) rest (by omega), List.flatMap_cons, List.length_append,
        List.append_assoc, List.singleton_append, Nat.add_assoc]

/-- A stretch without a newline that fills the buffer stops the scanner with
`ErrTooLong`, whatever follows. -/
theorem scanLinesFrom_tooLong {w : List Char} (hw : '\n' ∉ w) :
    ∀ {cur : List Char} {n : Nat} (rest : List Char), n < maxTokenSize →
      maxTokenSize ≤ n + (w.flatMap encodeRune).length → scanLinesFrom cur n (w ++ rest) = ([], true) := by
  induction w with
  | nil => intro _ _ _ h₁ h₂; simp at h₂; omega
  | cons c w ih =>
      intro cur n rest h₁ h₂
      have hc : c ≠ '\n' := fun e => hw (e ▸ .head _)
      rw [List.flatMap_cons, List.length_append] at h₂
      rw [List.cons_append, scanLinesFrom, if_neg hc]
      split_ifs with hm
      · rfl
      · exact ih (fun m => hw (.tail _ m)) rest (by omega) (by omega)

/-- One line and its ending: the scanner returns the line, then goes on from
the start of the next. -/
theorem scanLinesFrom_line {crlf : Bool} {l : String} (hl : ShortLine crlf l) (rest : List Char) :
    scanLinesFrom [] 0 (l.data ++ (if crlf then ['\r', '\n'] else ['\n']) ++ rest) =
      (l :: (scanLinesFrom [] 0 rest).1, (scanLinesFrom [] 0 rest).2) := by
  have hb := hl.short
  rw [goBytes] at hb
  cases crlf with
  | false =>
      rw [if_neg Bool.false_ne_true, List.append_assoc, List.singleton_append,
        scanLinesFrom_append hl.no_newline _ (by simpa using hb), scanLinesFrom, if_pos rfl,
        List.nil_append, dropCR_of_getLast hl.no_cr]
  | true =>
      have hw : '\n' ∉ l.data ++ ['\r'] := by simp [hl.no_newline]
      rw [if_pos rfl, show l.data ++ ['\r', '\n'] ++ rest = (l.data ++ ['\r']) ++ '\n' :: rest by simp,
        scanLinesFrom_append hw _ (by simpa [encodeRune, encodeCode] using hb), scanLinesFrom,
        if_pos rfl, List.nil_append, dropCR_append_cr]

/-- A last line without a newline is returned at the end of the input. -/
theorem scanLinesFrom_last {l : String} (hl : ShortLine false l) (hne : l ≠ "") :
    scanLinesFrom [] 0 l.data = ([l], false) := by
  have hb := hl.short
  rw [goBytes] at hb
  have hd : l.data ≠ [] := fun e => hne (String.ext e)
  rw [← List.append_nil l.data, scanLinesFrom_append hl.no_newline _ (by simpa using hb),
    scanLinesFrom, List.nil_append, if_neg hd, dropCR_of_getLast hl.no_cr]

/-- Lines written one to a line, each with its own ending and shorter than the
buffer, are read back as they were written, and so is a last line without a
newline; at the first line of 1 MiB or more after them the scanner stops with
`ErrTooLong`. -/
theorem scanLinesFrom_writeLines :
    ∀ (ls : List (String × Bool)), (∀ l ∈ ls, ShortLine l.2 l.1) →
      scanLinesFrom [] 0 (writeLines ls) = (ls.map Prod.fst, false) ∧
        (∀ last : String, ShortLine false last → last ≠ "" →
          scanLinesFrom [] 0 (writeLines ls ++ last.data) = (ls.map Prod.fst ++ [last], false)) ∧
        ∀ w rest : List Char, '\n' ∉ w → maxTokenSize ≤ (w.flatMap encodeRune).length →
          scanLinesFrom [] 0 (writeLines ls ++ w ++ rest) = (ls.map Prod.fst, true)
  | [], _ => ⟨by simp [writeLines, scanLinesFrom], fun _ h hne => scanLinesFrom_last h hne,
      fun w rest hw hb => scanLinesFrom_tooLong hw rest (by decide) (by simpa using hb)⟩
  | l :: ls, hl => by
      have ih := scanLinesFrom_writeLines ls fun x hx => hl x (.tail _ hx)
      have hline := scanLinesFrom_line (hl l (.head _))
      refine ⟨?_, fun last h hne => ?_, fun w rest hw hb => ?_⟩
      · rw [writeLines, List.flatMap_cons, ← writeLines, hline, ih.1]
        rfl
      · rw [writeLines, List.flatMap_cons, ← writeLines, List.append_assoc, hline,
          ih.2.1 last h hne]
        rfl
      · rw [writeLines, List.flatMap_cons, ← writeLines, List.append_assoc, List.append_assoc,
          ← List.append_assoc _ w, hline, ih.2.2 w rest hw hb]
        rfl

example : scanLinesFrom [] 0 "PUT a 1\r\n\nGET a".data = (["PUT a 1", "", "GET a"], false) := by
  decide

/-- The client serves the lines of its input, each ending in `\n` or `\r\n`
as it comes and the last with or without a newline after it, as long as each
is shorter than the buffer; a line of 1 MiB or more ends it with a scanner
error after the lines before it, unless one of them was `STOP`, and neither it
nor any line after it reaches the server. -/
theorem stdinRun_writeLines (b : Backend S E) (upper : Char → Char) (ss : Session S)
    (env : Nat → E) (ls : List (String × Bool)) (hl : ∀ l ∈ ls, ShortLine l.2 l.1) :
    stdinRun b upper ss env ⟨writeLines ls⟩ =
        (stdinMode b upper ss ((ls.map Prod.fst).enum.map fun x => (x.2, env x.1)), false) ∧
      (∀ last : String, ShortLine false last → last ≠ "" →
        stdinRun b upper ss env ⟨writeLines ls ++ last.data⟩ =
          (stdinMode b upper ss ((ls.map Prod.fst ++ [last]).enum.map fun x => (x.2, env x.1)),
            false)) ∧
      ∀ w rest : String, '\n' ∉ w.data → maxTokenSize ≤ (goBytes w).length →
        stdinRun b upper ss env ⟨writeLines ls ++ w.data ++ rest.data⟩ =
          (stdinMode b upper ss ((ls.map Prod.fst).enum.map fun x => (x.2, env x.1)),
            !((ls.map Prod.fst).any fun l => lineAction upper l == .stop)) := by
  obtain ⟨h₁, h₂, h₃⟩ := scanLinesFrom_writeLines ls hl
  refine ⟨by rw [stdinRun, stdinLines, h₁]; rfl, fun last h hne => ?_, fun w rest hw hb => ?_⟩
  · rw [stdinRun, stdinLines, h₂ last h hne]
    rfl
  · rw [stdinRun, stdinLines, h₃ w.data rest.data hw hb]
    rfl

/-- A line ending in `\r\n` and one ending in `\n`, on the in-memory server. -/
theorem stdinRun_writeLines_put_stop :
    (∀ l ∈ [("PUT a 1", true), ("STOP", false)], ShortLine l.2 l.1) ∧
      (stdinRun memoryBackend id ⟨Memory.newKVServer, [], []⟩ (fun _ => ())
          ⟨writeLines [("PUT a 1", true), ("STOP", false)]⟩ =
        (stdinMode memoryBackend id ⟨Memory.newKVServer, [], []⟩
          (["PUT a 1", "STOP"].enum.map fun x => (x.2, ())), false) ∧
      (∀ last : String, ShortLine false last → last ≠ "" →
        stdinRun memoryBackend id ⟨Memory.newKVServer, [], []⟩ (fun _ => ())
            ⟨writeLines [("PUT a 1", true), ("STOP", false)] ++ last.data⟩ =
          (stdinMode memoryBackend id ⟨Memory.newKVServer, [], []⟩
            ((["PUT a 1", "STOP"] ++ [last]).enum.map fun x => (x.2, ())), false)) ∧
      ∀ w rest : String, '\n' ∉ w.data → maxTokenSize ≤ (goBytes w).length →
        stdinRun memoryBackend id ⟨Memory.newKVServer, [], []⟩ (fun _ => ())
            ⟨writeLines [("PUT a 1", true), ("STOP", false)] ++ w.data ++ rest.data⟩ =
          (stdinMode memoryBackend id ⟨Memory.newKVServer, [], []⟩
            (["PUT a 1", "STOP"].enum.map fun x => (x.2, ())),
            !(["PUT a 1", "STOP"].any fun l => lineAction id l == .stop))) :=
  have hl : ∀ l ∈ [("PUT a 1", true), ("STOP", false)], ShortLine l.2 l.1 := by
    intro l hl
    simp only [List.mem_cons, List.mem_singleton, List.not_mem_nil, or_false] at hl
    rcases hl with rfl | rfl <;> exact ⟨by decide, by decide, by decide⟩
  ⟨hl, stdinRun_writeLines memoryBackend id _ (fun _ => ()) _ hl⟩

end KVStore.Client
