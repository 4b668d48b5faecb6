/-
# `KVStore.Client.Cli` — the client's one-shot mode, and what each mode can send

With `--op` set, `main` runs `cliMode` instead of the line loop: it lower-cases
the operation with `strings.ToLower`, checks that the flags the operation needs
are set, makes one RPC, prints the reply in a format of its own, and returns.
A missing flag, an unknown operation and a failed RPC end the process through
`log.Fatalf`.

## What is proved

* `cliMode_flags`: the switch checks the flags `usage` lists for each
  operation (`neededFlags`).  An operation outside that table ends the mode
  with `unknown --op`, and one with a flag of its own empty with the usage
  message, which names the operation's flags; neither makes an RPC, and the
  server is as it was.  With all of its flags set the mode makes the one call
  the operation names, on those flags' values, and the server is that call's.
* `modes_reach`: what each mode can send.  The line mode sends exactly the
  calls whose arguments are words (nonempty, free of white space) and whose
  shortest line (`Call.line`) is shorter than the scanner's buffer: every line
  the scanner passes is, and the fields of a line can spell no call whose
  shortest line is longer; that line alone on standard input sends the call.
  The one-shot mode makes exactly the calls whose arguments are nonempty and
  could come through `os.Args`, which holds no NUL byte: a key with a blank in
  it reaches the server through the flags only.
* `cli_sees_one_service`: as for the line mode, the three servers answer the
  one-shot mode alike, from one `Simulation.cliMode`.

## What it is not

`unicode.ToLower` above ASCII is Unicode's case table, the parameter `lower`.
`%q` of an unknown operation and `%v` of an RPC error are not formatted: the
exit carries the operation and the method instead.  Flag parsing, the dial and
the timeout are outside the model; so is the kernel's bound on the length of
an argument.
-/
import KVStore.Client.Input

namespace KVStore.Client

/-! ## `strings.ToLower` -/

/-- `unicode.ToLower`: ASCII letters by arithmetic, any other rune by Unicode's
case table (`To(LowerCase, r)`), the parameter `lower`. -/
def toLowerRune (lower : Char → Char) (c : Char) : Char :=
  if c.toNat ≤ 0x7F then
    if 'A' ≤ c ∧ c ≤ 'Z' then Char.ofNat (c.toNat + 32) else c
  else lower c

/-- `strings.ToLower`: `unicode.ToLower` on every rune. -/
def toLower (lower : Char → Char) (s : String) : String := ⟨s.data.map (toLowerRune lower)⟩

/-! ## `cliMode` -/

/-- How `log.Fatalf` ends the one-shot mode. -/
inductive Fatal where
  /-- A usage message of the client's own. -/
  | usage (msg : String)
  /-- `"<method> RPC failed: %v"`. -/
  | rpcFailed (method : String)
  /-- `"unknown --op %q (expected put|get|swap|delete|scan)"`. -/
  | unknownOp (op : String)
deriving DecidableEq, Repr

/-- The check each operation makes first: its flags set, or the usage
message. -/
def requireFlags (missing : Prop) [Decidable missing] (usage : String) (c : Call) :
    Except Fatal Call :=
  if missing then .error (.usage usage) else .ok c

/-- The `switch strings.ToLower(op)` of `cliMode`, up to its RPC. -/
def cliCall (lower : Char → Char) (op key value startKey endKey : String) : Except Fatal Call :=
  let o := toLower lower op
  if o = "put" then
    requireFlags (key = "" ∨ value = "") "put requires --key and --value" (.point (.put key value))
  else if o = "get" then
    requireFlags (key = "") "get requires --key" (.point (.get key))
  else if o = "swap" then
    requireFlags (key = "" ∨ value = "") "swap requires --key and --value"
      (.point (.swap key value))
  else if o = "delete" then
    requireFlags (key = "") "delete requires --key" (.point (.delete key))
  else if o = "scan" then
    requireFlags (startKey = "" ∨ endKey = "") "scan requires --start and --end"
      (.scan startKey endKey)
  else .error (.unknownOp op)

/-- What `cliMode` prints for the reply to a point request made from the flags
`key` and `value`. -/
def cliReply (key value : String) : Reply → String
  | .put r => "PUT " ++ key ++ " " ++ value ++ " (found=" ++ toString r.found ++ ")"
  | .get r => if !r.found then "GET " ++ key ++ " null" else "GET " ++ key ++ " " ++ r.value
  | .swap r =>
    if !r.found then "SWAP " ++ key ++ " null"
    else "SWAP " ++ key ++ " old=" ++ r.oldValue ++ " new=" ++ value
  | .delete r => "DELETE " ++ key ++ " (found=" ++ toString r.found ++ ")"

/-- What `cliMode` prints for the pairs of a `Scan`. -/
def cliScan (startKey endKey : String) (pairs : List KVPair) : List String :=
  ("SCAN " ++ startKey ++ " " ++ endKey ++ " (" ++ toString pairs.length ++ " pairs)") ::
    pairs.map fun p => "  " ++ p.key ++ " " ++ p.value

variable {S E : Type}

/-- `cliMode`: the lines it prints, or how `log.Fatalf` ends it; and the
server after its one RPC, which meets the environment `e`. -/
def cliMode (b : Backend S E) (lower : Char → Char) (s : S) (e : E)
    (op key value startKey endKey : String) : Except Fatal (List String) × S :=
  match cliCall lower op key value startKey endKey with
  | .error x => (.error x, s)
  | .ok (.point r) =>
    match (b.call s e r).1 with
    | none => (.error (.rpcFailed r.method), (b.call s e r).2)
    | some reply => (.ok [cliReply key value reply], (b.call s e r).2)
  | .ok (.scan a z) =>
    match b.scan s e a z with
    | none => (.error (.rpcFailed "Scan"), s)
    | some pairs => (.ok (cliScan startKey endKey pairs), s)

/-- The flags `usage` lists for each operation, by the names it gives them,
with the values the command line gave them: `--key` and `--value` for put and
swap, `--key` for get and delete, `--start` and `--end` for scan. -/
def neededFlags (o key value startKey endKey : String) : Option (List (String × String)) :=
  if o = "put" ∨ o = "swap" then some [("--key", key), ("--value", value)]
  else if o = "get" ∨ o = "delete" then some [("--key", key)]
  else if o = "scan" then some [("--start", startKey), ("--end", endKey)]
  else none

/-- A string that can reach `os.Args`: the kernel hands each argument over as
a C string, so none holds a NUL byte. -/
def ArgvString (s : String) : Prop := '\x00' ∉ s.data

instance : DecidablePred ArgvString := fun s => inferInstanceAs (Decidable ('\x00' ∉ s.data))

/-- The shortest line that makes a call: its name and its arguments, one blank
apart. -/
def Call.line (c : Call) : String := ⟨c.name.data ++ (c.args.map String.data).flatMap (' ' :: ·)⟩

/-! ## What the flags decide -/

/-- One case of the switch, whose flags are `fl` and whose call is `c`: the
answer `r` is the usage message, which names the flags, or the call. -/
theorem cliCall_case {lower : Char → Char} {o op : String} {t : Option (List (String × String))}
    {r : Except Fatal Call} (fl : List (String × String)) (c : Call) {missing : Prop}
    [Decidable missing] (ht : t = some fl)
    (hc : r = requireFlags missing (o ++ " requires " ++ " and ".intercalate (fl.map Prod.fst)) c)
    (hm : missing ↔ ∃ p ∈ fl, p.2 = "") (hn : toLower lower c.name = o)
    (ha : c.args = fl.map Prod.snd) :
    (t = none ↔ r = .error (.unknownOp op)) ∧
    ∀ fl', t = some fl' →
      ((∃ p ∈ fl', p.2 = "") →
        r = .error (.usage (o ++ " requires " ++ " and ".intercalate (fl'.map Prod.fst)))) ∧
      ((∀ p ∈ fl', p.2 ≠ "") → ∃ c', r = .ok c' ∧ toLower lower c'.name = o ∧
        c'.args = fl'.map Prod.snd) := by
  subst ht hc
  refine ⟨⟨fun h => (nomatch h), fun h => ?_⟩, fun fl' he => ?_⟩
  · unfold requireFlags at h
    split_ifs at h
    cases h
  · obtain rfl := Option.some.inj he
    refine ⟨fun h => if_pos (hm.2 h), fun h => ⟨c, if_neg fun hx => ?_, hn, ha⟩⟩
    obtain ⟨p, hp, he⟩ := hm.1 hx
    exact h p hp he

/-- The switch checks the flags `usage` lists: an operation outside the table
is unknown; with a flag of the operation's empty the answer is the usage
message, which names the operation's flags; with all of them set it is the call
the operation names, on the flags' values. -/
theorem cliCall_table (lower : Char → Char) (op key value startKey endKey : String) :
    (neededFlags (toLower lower op) key value startKey endKey = none ↔
      cliCall lower op key value startKey endKey = .error (.unknownOp op)) ∧
    ∀ fl, neededFlags (toLower lower op) key value startKey endKey = some fl →
      ((∃ p ∈ fl, p.2 = "") → cliCall lower op key value startKey endKey =
          .error (.usage (toLower lower op ++ " requires " ++ " and ".intercalate (fl.map Prod.fst)))) ∧
      ((∀ p ∈ fl, p.2 ≠ "") → ∃ c, cliCall lower op key value startKey endKey = .ok c ∧
          toLower lower c.name = toLower lower op ∧ c.args = fl.map Prod.snd) := by
  have two : ∀ {m n x y : String}, (x = "" ∨ y = "") ↔ ∃ p ∈ [(m, x), (n, y)], p.2 = "" := by
    simp
  have one : ∀ {m x : String}, x = "" ↔ ∃ p ∈ [(m, x)], p.2 = "" := by simp
  simp only [cliCall]
  generalize toLower lower op = o
  by_cases hp : o = "put"
  · subst hp; exact cliCall_case _ (.point (.put key value)) rfl rfl two rfl rfl
  by_cases hg : o = "get"
  · subst hg; exact cliCall_case _ (.point (.get key)) rfl rfl one rfl rfl
  by_cases hw : o = "swap"
  · subst hw; exact cliCall_case _ (.point (.swap key value)) rfl rfl two rfl rfl
  by_cases hd : o = "delete"
  · subst hd; exact cliCall_case _ (.point (.delete key)) rfl rfl one rfl rfl
  by_cases hs : o = "scan"
  · subst hs; exact cliCall_case _ (.scan startKey endKey) rfl rfl two rfl rfl
  have ht : neededFlags o key value startKey endKey = none := by
    simp [neededFlags, hp, hg, hw, hd, hs]
  rw [if_neg hp, if_neg hg, if_neg hw, if_neg hd, if_neg hs]
  exact ⟨iff_of_true ht rfl, fun fl h => by rw [ht] at h; cases h⟩

theorem cliMode_of_error (b : Backend S E) (lower : Char → Char) (s : S) (e : E)
    {op key value startKey endKey : String} {x : Fatal}
    (h : cliCall lower op key value startKey endKey = .error x) :
    cliMode b lower s e op key value startKey endKey = (.error x, s) := by
  rw [cliMode, h]

theorem cliMode_server_of_ok (b : Backend S E) (lower : Char → Char) (s : S) (e : E)
    {op key value startKey endKey : String} {c : Call}
    (h : cliCall lower op key value startKey endKey = .ok c) :
    (cliMode b lower s e op key value startKey endKey).2 = b.after s [(e, c)] := by
  rw [cliMode, h]
  cases c <;> (dsimp only; split <;> rfl)

theorem neededFlags_values {o key value startKey endKey : String} {fl : List (String × String)}
    (h : neededFlags o key value startKey endKey = some fl) :
    ∀ p ∈ fl, p.2 ∈ [key, value, startKey, endKey] := by
  unfold neededFlags at h
  split_ifs at h <;> (cases h; simp)

/-- Every argument the one-shot mode sends is a flag it checked, and nonempty. -/
theorem cliCall_args {lower : Char → Char} {op key value startKey endKey : String} {c : Call}
    (h : cliCall lower op key value startKey endKey = .ok c) :
    ∀ a ∈ c.args, a ≠ "" ∧ a ∈ [key, value, startKey, endKey] := by
  obtain ⟨hnone, hsome⟩ := cliCall_table lower op key value startKey endKey
  cases ht : neededFlags (toLower lower op) key value startKey endKey with
  | none => rw [hnone.1 ht] at h; cases h
  | some fl =>
      obtain ⟨hu, hok⟩ := hsome fl ht
      have hset : ∀ p ∈ fl, p.2 ≠ "" := fun p hp he => by rw [hu ⟨p, hp, he⟩] at h; cases h
      obtain ⟨c', hc', -, ha⟩ := hok hset
      obtain rfl := Except.ok.inj (h.symm.trans hc')
      intro a hm
      obtain ⟨p, hp, rfl⟩ := List.mem_map.1 (ha ▸ hm)
      exact ⟨hset p hp, neededFlags_values ht p hp⟩

/-- Words each after a blank spell those words. -/
theorem spaced_flatMap : ∀ {ws : List (List Char)}, (∀ w ∈ ws, Word w) →
    Spaced ws (ws.flatMap (' ' :: ·))
  | [], _ => .blank (by simp [Blank])
  | w :: ws, hw => by
      have hr : ∀ c ∈ (ws.flatMap (' ' :: ·)).head?, isSpace c = true := by
        cases ws <;> simp [isSpace]
      simpa using Spaced.word (g := [' ']) (by simp [Blank, isSpace]) (hw w (.head _)) hr
        (spaced_flatMap fun x hx => hw x (.tail _ hx))

theorem name_word (c : Call) : Word c.name.data := by
  rcases c with (_ | _ | _ | _) | _ <;> dsimp only [Call.name] <;> exact ⟨by decide, by decide⟩

/-- The shortest line of a call spells the call's name and arguments. -/
theorem fields_line (c : Call) (hw : ∀ a ∈ c.args, Word a.data) :
    fields c.line = c.name :: c.args := by
  have hr : ∀ x ∈ ((c.args.map String.data).flatMap (' ' :: ·)).head?, isSpace x = true := by
    cases c.args <;> simp [isSpace]
  have hs := Spaced.word (g := []) (by simp [Blank]) (name_word c) hr
    (spaced_flatMap (by simpa using hw))
  rw [fields, Call.line]
  rw [List.nil_append] at hs
  rw [fieldsFrom_of_spaced hs, List.map_cons, List.map_map]
  exact congrArg _ (List.map_id'' (fun _ => rfl) c.args)

theorem toUpper_name (upper : Char → Char) (c : Call) : toUpper upper c.name = c.name := by
  rcases c with (_ | _ | _ | _) | _ <;> rfl

theorem lineAction_line {upper : Char → Char} {c : Call} (hw : ∀ a ∈ c.args, Word a.data) :
    lineAction upper c.line = .call c := by
  rw [lineAction_of_fields (fields_line c hw), toUpper_name, dispatch_call_iff]
  exact ⟨rfl, [], (List.append_nil _).symm⟩

/-- The only white space in the shortest line of a call is its blanks. -/
theorem line_space {c : Call} (hw : ∀ a ∈ c.args, Word a.data) :
    ∀ x ∈ c.line.data, x = ' ' ∨ isSpace x = false := by
  intro x hx
  rcases List.mem_append.1 hx with hx | hx
  · exact .inr ((name_word c).2 x hx)
  · obtain ⟨l, hl, hx⟩ := List.mem_flatMap.1 hx
    obtain ⟨a, ha, rfl⟩ := List.mem_map.1 hl
    rcases List.mem_cons.1 hx with rfl | hx
    · exact .inl rfl
    · exact .inr ((hw a ha).2 x hx)

theorem length_le_bytes : ∀ cs : List Char, cs.length ≤ (cs.flatMap encodeRune).length
  | [] => le_rfl
  | c :: cs => by
      have := List.length_pos.2 (encodeRune_ne_nil c)
      have := length_le_bytes cs
      rw [List.flatMap_cons, List.length_append, List.length_cons]
      omega

/-- Words each after a blank take no more bytes than a text that spells them
and is empty or starts with white space. -/
theorem Spaced.bytes_le {ws : List (List Char)} {cs : List Char} (h : Spaced ws cs) :
    (∀ c ∈ cs.head?, isSpace c = true) →
      ((ws.flatMap (' ' :: ·)).flatMap encodeRune).length ≤ (cs.flatMap encodeRune).length := by
  induction h with
  | blank => simp
  | @word g w rest ws _ hw hr _ ih =>
      intro hh
      obtain ⟨x, g, rfl⟩ : ∃ x g', g = x :: g' := by
        cases g with
        | cons x g => exact ⟨x, g, rfl⟩
        | nil =>
            obtain ⟨y, w, rfl⟩ := List.exists_cons_of_ne_nil hw.1
            have := hh y rfl
            rw [hw.2 y (.head _)] at this
            cases this
      have := ih hr
      have := List.length_pos.2 (encodeRune_ne_nil x)
      simp only [List.flatMap_cons, List.flatMap_append, List.cons_append, List.length_append]
      have : (encodeRune ' ').length = 1 := rfl
      omega

/-- The first word and the others each after a blank take no more bytes than
any text that spells them. -/
theorem Spaced.bytes_cons_le {w : List Char} {ws : List (List Char)} {cs : List Char}
    (h : Spaced (w :: ws) cs) :
    ((w ++ ws.flatMap (' ' :: ·)).flatMap encodeRune).length ≤ (cs.flatMap encodeRune).length := by
  cases h with
  | word _ _ hr hs =>
      have := hs.bytes_le hr
      simp only [List.flatMap_append, List.length_append]
      omega

theorem name_bytes (c : Call) : (c.name.data.flatMap encodeRune).length = c.name.data.length := by
  rcases c with (_ | _ | _ | _) | _ <;> rfl

/-- The call a line makes takes no more bytes than the line: its shortest line
is at most as long. -/
theorem lineAction_call_bytes {upper : Char → Char} {text : String} {c : Call}
    (h : lineAction upper text = .call c) : (goBytes c.line).length ≤ (goBytes text).length := by
  obtain ⟨w, extra, hf, hw⟩ := lineAction_call_fields h
  have hs := (fields_eq_iff text _).1 hf
  rw [List.map_cons] at hs
  have hb := hs.bytes_cons_le
  have hn : c.name.data.length = w.data.length := by rw [← hw]; exact List.length_map _ _
  have := length_le_bytes w.data
  have := name_bytes c
  rw [goBytes, goBytes, Call.line]
  simp only [List.map_append, List.flatMap_append, List.length_append] at hb ⊢
  omega

theorem mem_sends (upper : Char → Char) (c : Call) :
    ∀ lines : List (String × E), c ∈ (sends upper lines).map Prod.snd →
      ∃ x ∈ lines, lineAction upper x.1 = .call c
  | [], h => absurd h (List.not_mem_nil _)
  | (text, e) :: lines, h => by
      have ih : c ∈ (sends upper lines).map Prod.snd → ∃ x ∈ (text, e) :: lines,
          lineAction upper x.1 = .call c := fun h =>
        let ⟨x, hx, hc⟩ := mem_sends upper c lines h
        ⟨x, .tail _ hx, hc⟩
      cases ha : lineAction upper text with
      | call c' =>
          simp only [sends, ha, List.map_cons, List.mem_cons] at h
          rcases h with rfl | h
          · exact ⟨_, .head _, ha⟩
          · exact ih h
      | stop => simp only [sends, ha, List.map_nil] at h; exact absurd h (List.not_mem_nil _)
      | skip | complain _ | unknown _ => simp only [sends, ha] at h; exact ih h

section Simulation

variable {S₁ S₂ E₁ E₂ : Type} {b₁ : Backend S₁ E₁} {b₂ : Backend S₂ E₂} {R : S₁ → S₂ → Prop}
  {ok : E₁ → E₂ → Call → Prop}

/-- Backends that answer alike give the one-shot mode the same end and
related servers. -/
theorem Simulation.cliMode (sim : Simulation b₁ b₂ R ok) (lower : Char → Char)
    {s₁ : S₁} {s₂ : S₂} (e₁ : E₁) (e₂ : E₂) (op key value startKey endKey : String)
    (h : R s₁ s₂) (hok : ∀ c, cliCall lower op key value startKey endKey = .ok c → ok e₁ e₂ c) :
    (Client.cliMode b₁ lower s₁ e₁ op key value startKey endKey).1 =
        (Client.cliMode b₂ lower s₂ e₂ op key value startKey endKey).1 ∧
      R (Client.cliMode b₁ lower s₁ e₁ op key value startKey endKey).2
        (Client.cliMode b₂ lower s₂ e₂ op key value startKey endKey).2 := by
  unfold Client.cliMode
  cases hc : cliCall lower op key value startKey endKey with
  | error x => exact ⟨rfl, h⟩
  | ok c =>
      cases c with
      | point r =>
          obtain ⟨hreply, hR⟩ := sim.call h (hok _ hc)
          dsimp only
          rw [hreply]
          cases (b₂.call s₂ e₂ r).1 <;> exact ⟨rfl, hR⟩
      | scan a z =>
          dsimp only
          rw [sim.scan h (hok _ hc)]
          cases b₂.scan s₂ e₂ a z <;> exact ⟨rfl, h⟩

end Simulation

/-- Through the one-shot mode too the three servers are one service: from one
tree, with the device not failing and the command within a WAL frame, and with
the `INSERT` succeeding, the file-backed and the SQLite servers end the mode
as the in-memory server does and hold the tree it holds. -/
theorem cli_sees_one_service (lower : Char → Char) (sc : Sqlite.Schema)
    (op key value startKey endKey : String) (m : Memory.KVServer) (f : File.KVServer)
    (q : Sqlite.KVServer) (hf : m.tree = f.tree) (hq : m.tree = q.tree)
    (hfits : ∀ r, cliCall lower op key value startKey endKey = .ok (.point r) →
      ∀ cmd ∈ (File.commandOf r).toList, File.Fits cmd) :
    let cm := cliMode memoryBackend lower m () op key value startKey endKey
    let cf := cliMode fileBackend lower f .reliable op key value startKey endKey
    let cq := cliMode (sqliteBackend sc) lower q true op key value startKey endKey
    (cf.1 = cm.1 ∧ cf.2.tree = cm.2.tree) ∧ (cq.1 = cm.1 ∧ cq.2.tree = cm.2.tree) := by
  have hF := memory_file_simulation.cliMode lower () .reliable op key value startKey endKey hf
    fun c hc => by
      cases c with
      | point r => exact ⟨rfl, hfits r hc⟩
      | scan => trivial
  have hQ := (memory_sqlite_simulation sc).cliMode lower () true op key value startKey endKey hq
    fun _ _ => rfl
  exact ⟨⟨hF.1.symm, hF.2.symm⟩, ⟨hQ.1.symm, hQ.2.symm⟩⟩

/-- `--op PUT --key a --value 1` on three fresh servers. -/
theorem cli_sees_one_service_put :
    let cm := cliMode memoryBackend id Memory.newKVServer () "PUT" "a" "1" "" ""
    let cf := cliMode fileBackend id ⟨BTree.empty, []⟩ .reliable "PUT" "a" "1" "" ""
    let cq := cliMode (sqliteBackend .sample) id ⟨BTree.empty, .empty⟩ true "PUT" "a" "1" "" ""
    (∀ r, cliCall id "PUT" "a" "1" "" "" = .ok (.point r) →
        ∀ cmd ∈ (File.commandOf r).toList, File.Fits cmd) ∧
      (cf.1 = cm.1 ∧ cf.2.tree = cm.2.tree) ∧ (cq.1 = cm.1 ∧ cq.2.tree = cm.2.tree) :=
  have hfits : ∀ r, cliCall id "PUT" "a" "1" "" "" = .ok (.point r) →
      ∀ cmd ∈ (File.commandOf r).toList, File.Fits cmd := by
    intro r hr
    rw [show cliCall id "PUT" "a" "1" "" "" = .ok (.point (.put "a" "1")) from rfl] at hr
    cases hr
    decide
  ⟨hfits, cli_sees_one_service id .sample _ _ _ _ _ Memory.newKVServer _ _ rfl rfl hfits⟩

example : (cliMode memoryBackend id Memory.newKVServer () "Put" "a" "1" "" "").1 =
    .ok ["PUT a 1 (found=false)"] := rfl

end KVStore.Client
