/-
# `KVStore.Client.Session` — the client's line mode, talking to each server

`stdinMode` reads lines until standard input ends or a line says `STOP`; a
line that names a call makes one RPC and prints the reply, or logs that the
RPC failed.  A `Backend` is a server as the client reaches it through gRPC: a
point request gets a reply or an error and may change the server, a `Scan`
gets the pairs or an error.  Each of the three servers is a backend, with what
decides its failures as the environment of a call: nothing for the in-memory
server, the device for the file-backed one, whether the `INSERT` succeeds for
the SQLite one.

## What is proved

* `stdinMode_server`: the server sees the calls of the lines before the first
  `STOP`, each once and in order (`sends`), and nothing else; no line after
  `STOP` reaches it.
* `stdinMode_stop`: `STOP` is obeyed only alone on its line; with fields after
  it the line is refused with "STOP takes no arguments" and the loop goes on.
* `Simulation.stdinMode`: two backends that answer alike from related states,
  fed the same lines, give sessions that print and log alike and end with
  related states.  One lemma per line (`Simulation.line`), one induction over
  the lines.
* `client_sees_one_service`: through this client the three servers are one
  service.  From the same tree, fed the same lines, on devices that do not
  fail and with every command within a WAL frame, the file-backed and the
  SQLite servers print what the in-memory server prints, log what it logs,
  and end with the tree it ends with.
* `session_survives_crash`: a crash after any session with the file-backed
  server on devices that do not fail: the restart rebuilds the server the
  session ended with, refused requests included, from one invariant of the
  loop (`stdinMode_preserves`) and the step lemma
  `File.consistent_handle_reliable`.

## What it is not

It is about one client.  Several clients interleave only at the servers'
mutex, which `KVStore.Mutex` is about; and the text a failed RPC logs after
its method name (`%v` of the error) is left out.
-/
import KVStore.Client.Line
import KVStore.Refinement

namespace KVStore

/-- The method of a point request, as the client's log names it. -/
def Request.method : Request → String
  | .put _ _ => "Put"
  | .get _ => "Get"
  | .swap _ _ => "Swap"
  | .delete _ => "Delete"

/-- The key of a point request. -/
def Request.key : Request → String
  | .put k _ | .get k | .swap k _ | .delete k => k

namespace Client

/-! ## The loop -/

/-- A line `log.Printf` writes: a message of the client's own, or
`"<method> RPC failed: %v"` for a failed RPC. -/
inductive LogLine where
  | printf (msg : String)
  | rpcFailed (method : String)
deriving DecidableEq, Repr

/-- A server as the client reaches it: `call` answers a point request or
fails (`none`), and leaves the server changed or not; `scan` answers a `Scan`,
which changes nothing.  `E` is whatever else decides an RPC's fate. -/
structure Backend (S E : Type) where
  call : S → E → Request → Option Reply × S
  scan : S → E → String → String → Option (List KVPair)

/-- What the loop prints for the reply to a point request on `key`. -/
def printReply (key : String) : Reply → String
  | .put r => "PUT " ++ key ++ " " ++ (if r.found then "found" else "not_found")
  | .get r => if !r.found then "GET " ++ key ++ " null" else "GET " ++ key ++ " " ++ r.value
  | .swap r =>
    if !r.found then "SWAP " ++ key ++ " null" else "SWAP " ++ key ++ " " ++ r.oldValue
  | .delete r => "DELETE " ++ key ++ " " ++ (if r.found then "found" else "not_found")

/-- What the loop prints for the pairs a `Scan` returned. -/
def printScan (startKey endKey : String) (pairs : List KVPair) : List String :=
  ("SCAN " ++ startKey ++ " " ++ endKey ++ " BEGIN") ::
    (pairs.map (fun p => "  " ++ p.key ++ " " ++ p.value) ++ ["SCAN END"])

/-- The client in its loop: the server it talks to, the lines it has printed
on standard output, and the lines it has logged. -/
structure Session (S : Type) where
  server : S
  out : List String
  log : List LogLine

namespace Session

variable {S E : Type}

/-- The RPC of a call: print the reply, or log the failure. -/
def serve (b : Backend S E) (ss : Session S) (e : E) : Call → Session S
  | .point r =>
    match (b.call ss.server e r).1 with
    | none => ⟨(b.call ss.server e r).2, ss.out, ss.log ++ [.rpcFailed r.method]⟩
    | some reply => ⟨(b.call ss.server e r).2, ss.out ++ [printReply r.key reply], ss.log⟩
  | .scan startKey endKey =>
    match b.scan ss.server e startKey endKey with
    | none => ⟨ss.server, ss.out, ss.log ++ [.rpcFailed "Scan"]⟩
    | some pairs => ⟨ss.server, ss.out ++ printScan startKey endKey pairs, ss.log⟩

/-- One pass of the loop: the session after the line, or `none` once `STOP`
returns. -/
def line (b : Backend S E) (upper : Char → Char) (ss : Session S) (text : String) (e : E) :
    Option (Session S) :=
  match lineAction upper text with
  | .skip => some ss
  | .complain msg => some ⟨ss.server, ss.out, ss.log ++ [.printf msg]⟩
  | .call c => some (ss.serve b e c)
  | .stop => none
  | .unknown cmd => some ⟨ss.server, ss.out, ss.log ++ [.printf ("unknown command: " ++ cmd)]⟩

end Session

variable {S E : Type}

/-- `stdinMode`: the loop over the lines of standard input, each with the
environment its RPC, if it makes one, meets. -/
def stdinMode (b : Backend S E) (upper : Char → Char) (ss : Session S) :
    List (String × E) → Session S
  | [] => ss
  | (text, e) :: lines =>
    match ss.line b upper text e with
    | none => ss
    | some ss' => stdinMode b upper ss' lines

/-! ## What reaches the server -/

/-- The calls the lines make, with their environments: one for each line
before the first `STOP` that names a call. -/
def sends (upper : Char → Char) : List (String × E) → List (E × Call)
  | [] => []
  | (text, e) :: lines =>
    match lineAction upper text with
    | .stop => []
    | .call c => (e, c) :: sends upper lines
    | _ => sends upper lines

/-- The server after a sequence of calls. -/
def Backend.after (b : Backend S E) (s : S) : List (E × Call) → S
  | [] => s
  | (e, .point r) :: cs => b.after (b.call s e r).2 cs
  | (_, .scan _ _) :: cs => b.after s cs

theorem Session.serve_server (b : Backend S E) (ss : Session S) (e : E) (c : Call) :
    (ss.serve b e c).server = b.after ss.server [(e, c)] := by
  cases c with
  | point r => rw [serve]; split <;> rfl
  | scan a z => rw [serve]; split <;> rfl

theorem Backend.after_cons (b : Backend S E) (s : S) (e : E) (c : Call) (cs : List (E × Call)) :
    b.after s ((e, c) :: cs) = b.after (b.after s [(e, c)]) cs := by
  cases c <;> rfl

/-- The server at the end of a session has served the calls of the lines
before the first `STOP`, each once and in order, and nothing else. -/
theorem stdinMode_server (b : Backend S E) (upper : Char → Char) (ss : Session S)
    (lines : List (String × E)) :
    (stdinMode b upper ss lines).server = b.after ss.server (sends upper lines) := by
  induction lines generalizing ss with
  | nil => rfl
  | cons x lines ih =>
      obtain ⟨text, e⟩ := x
      rw [stdinMode, sends, Session.line]
      cases lineAction upper text with
      | call c => rw [ih, Backend.after_cons, Session.serve_server]
      | stop => rfl
      | skip | complain _ | unknown _ => exact ih _

/-- `STOP` ends the loop only alone on its line: a line whose fields are one
word that upper-cases to `STOP` returns from `stdinMode`, and no line after it
is read; with any field after that word the line is refused, "STOP takes no
arguments" is logged, and the loop goes on with the next line. -/
theorem stdinMode_stop (b : Backend S E) (upper : Char → Char) (ss : Session S) (text : String)
    (e : E) :
    (lineAction upper text = .stop ↔ ∃ w, fields text = [w] ∧ toUpper upper w = "STOP") ∧
    (lineAction upper text = .stop → ∀ lines, stdinMode b upper ss ((text, e) :: lines) = ss) ∧
    ∀ w rest, fields text = w :: rest → toUpper upper w = "STOP" → rest ≠ [] →
      lineAction upper text = .complain "STOP takes no arguments" ∧
      ∀ lines, stdinMode b upper ss ((text, e) :: lines) =
        stdinMode b upper ⟨ss.server, ss.out, ss.log ++ [.printf "STOP takes no arguments"]⟩ lines := by
  refine ⟨lineAction_stop_iff upper text, fun h lines => ?_, fun w rest hf hw hr => ?_⟩
  · rw [stdinMode, Session.line, h]
  · have hc : lineAction upper text = .complain "STOP takes no arguments" := by
      rw [lineAction_of_fields hf]
      simp [dispatch, hw, hr]
    exact ⟨hc, fun lines => by rw [stdinMode, Session.line, hc]⟩

/-- `STOP now` is refused, and the `STOP` after it is obeyed. -/
theorem stdinMode_stop_now :
    fields "STOP now" = ["STOP", "now"] ∧
      lineAction id "STOP now" = .complain "STOP takes no arguments" ∧
      stdinMode memoryBackend id ⟨Memory.newKVServer, [], []⟩ [("STOP now", ()), ("STOP", ())] =
        stdinMode memoryBackend id ⟨Memory.newKVServer, [], [.printf "STOP takes no arguments"]⟩
          [("STOP", ())] :=
  have hf : fields "STOP now" = ["STOP", "now"] := by decide
  have h := (stdinMode_stop memoryBackend id ⟨Memory.newKVServer, [], []⟩ "STOP now" ()).2.2
    "STOP" ["now"] hf rfl (List.cons_ne_nil _ _)
  ⟨hf, h.1, h.2 _⟩

/-! ## Backends that answer alike -/

section Simulation

variable {S₁ S₂ E₁ E₂ : Type}

/-- `b₂` answers as `b₁` does: from states related by `R`, a call that `ok`
admits gets the same answer from both and leaves them related. -/
structure Simulation (b₁ : Backend S₁ E₁) (b₂ : Backend S₂ E₂) (R : S₁ → S₂ → Prop)
    (ok : E₁ → E₂ → Call → Prop) : Prop where
  call : ∀ {s₁ s₂ e₁ e₂ r}, R s₁ s₂ → ok e₁ e₂ (.point r) →
    (b₁.call s₁ e₁ r).1 = (b₂.call s₂ e₂ r).1 ∧ R (b₁.call s₁ e₁ r).2 (b₂.call s₂ e₂ r).2
  scan : ∀ {s₁ s₂ e₁ e₂ startKey endKey}, R s₁ s₂ → ok e₁ e₂ (.scan startKey endKey) →
    b₁.scan s₁ e₁ startKey endKey = b₂.scan s₂ e₂ startKey endKey

/-- Two sessions look alike: related servers, the same output, the same log. -/
structure Alike (R : S₁ → S₂ → Prop) (ss₁ : Session S₁) (ss₂ : Session S₂) : Prop where
  server : R ss₁.server ss₂.server
  out : ss₁.out = ss₂.out
  log : ss₁.log = ss₂.log

variable {b₁ : Backend S₁ E₁} {b₂ : Backend S₂ E₂} {R : S₁ → S₂ → Prop}
  {ok : E₁ → E₂ → Call → Prop}

theorem Simulation.serve (sim : Simulation b₁ b₂ R ok) {ss₁ : Session S₁} {ss₂ : Session S₂}
    {e₁ : E₁} {e₂ : E₂} {c : Call} (h : Alike R ss₁ ss₂) (hok : ok e₁ e₂ c) :
    Alike R (ss₁.serve b₁ e₁ c) (ss₂.serve b₂ e₂ c) := by
  obtain ⟨hR, hout, hlog⟩ := h
  cases c with
  | point r =>
      obtain ⟨hreply, hR'⟩ := sim.call hR hok
      rw [Session.serve, Session.serve, hreply]
      cases (b₂.call ss₂.server e₂ r).1 <;> exact ⟨hR', by rw [hout], by rw [hlog]⟩
  | scan a z =>
      rw [Session.serve, Session.serve, sim.scan hR hok]
      cases b₂.scan ss₂.server e₂ a z <;> exact ⟨hR, by rw [hout], by rw [hlog]⟩

theorem Simulation.line (sim : Simulation b₁ b₂ R ok) (upper : Char → Char) {ss₁ : Session S₁}
    {ss₂ : Session S₂} {text : String} {e₁ : E₁} {e₂ : E₂} (h : Alike R ss₁ ss₂)
    (hok : ∀ c, lineAction upper text = .call c → ok e₁ e₂ c) :
    Option.Rel (Alike R) (ss₁.line b₁ upper text e₁) (ss₂.line b₂ upper text e₂) := by
  obtain ⟨hR, hout, hlog⟩ := h
  unfold Session.line
  cases ha : lineAction upper text with
  | skip => exact .some ⟨hR, hout, hlog⟩
  | complain msg => exact .some ⟨hR, hout, by rw [hlog]⟩
  | call c => exact .some (sim.serve ⟨hR, hout, hlog⟩ (hok c ha))
  | stop => exact .none
  | unknown cmd => exact .some ⟨hR, hout, by rw [hlog]⟩

/-- Backends that answer alike give sessions that look alike, line after
line, for as long as each line that makes a call meets environments `ok`
admits. -/
theorem Simulation.stdinMode (sim : Simulation b₁ b₂ R ok) (upper : Char → Char)
    {ss₁ : Session S₁} {ss₂ : Session S₂} {lines₁ : List (String × E₁)}
    {lines₂ : List (String × E₂)} (h : Alike R ss₁ ss₂)
    (hl : List.Forall₂ (fun x y => x.1 = y.1 ∧ ∀ c, lineAction upper x.1 = .call c → ok x.2 y.2 c)
      lines₁ lines₂) :
    Alike R (stdinMode b₁ upper ss₁ lines₁) (stdinMode b₂ upper ss₂ lines₂) := by
  induction hl generalizing ss₁ ss₂ with
  | nil => exact h
  | @cons x y lines₁ lines₂ hxy _ ih =>
      obtain ⟨text, e₁⟩ := x
      obtain ⟨text', e₂⟩ := y
      obtain ⟨rfl, hok⟩ := hxy
      have hline := sim.line upper h hok
      dsimp only at hline
      rw [Client.stdinMode, Client.stdinMode]
      generalize ss₁.line b₁ upper text e₁ = o₁ at hline ⊢
      generalize ss₂.line b₂ upper text e₂ = o₂ at hline ⊢
      cases hline with
      | none => exact h
      | some hab => exact ih hab

end Simulation

/-! ## The three servers -/

/-- The in-memory server as the client reaches it: it never fails. -/
def memoryBackend : Backend Memory.KVServer Unit where
  call s _ r := (some (s.handle r).1, (s.handle r).2)
  scan s _ startKey endKey := some (s.scan startKey endKey)

/-- The file-backed server as the client reaches it: a call fails when
`appendWAL` fails on the device it meets. -/
def fileBackend : Backend File.KVServer File.Device where
  call s dev r := ((s.handle dev r).1.toOption, (s.handle dev r).2)
  scan s _ startKey endKey := some (s.scan startKey endKey)

/-- The SQLite server as the client reaches it: a call fails when its
`INSERT` does. -/
def sqliteBackend (sc : Sqlite.Schema) : Backend Sqlite.KVServer Bool where
  call s insertOk r := ((s.handle sc insertOk r).1.toOption, (s.handle sc insertOk r).2)
  scan s _ startKey endKey := some (s.scan startKey endKey)

/-- What a call to the file-backed server needs to succeed: a device that
does not fail, and a command within a WAL frame. -/
def FileOk (dev : File.Device) : Call → Prop
  | .point r => dev = .reliable ∧ ∀ cmd ∈ (File.commandOf r).toList, File.Fits cmd
  | .scan _ _ => True

theorem memory_file_simulation :
    Simulation memoryBackend fileBackend (fun m f => m.tree = f.tree) (fun _ dev c => FileOk dev c) where
  call {m f _ dev r} h hok := by
    obtain ⟨rfl, hfits⟩ := hok
    obtain ⟨reply, hr⟩ : ∃ reply, (f.handle .reliable r).1 = .ok reply := by
      have := File.KVServer.handle_reliable_isOk f hfits
      revert this
      cases (f.handle .reliable r).1 <;> simp [Except.isOk, Except.toBool]
    obtain ⟨hf1, hf2⟩ := File.KVServer.handle_refines hr
    obtain ⟨hm1, hm2⟩ := Memory.KVServer.handle_apply m r
    refine ⟨?_, BTree.eq_of_toMap_eq ?_⟩
    · simp only [memoryBackend, fileBackend, hr, Except.toOption, hm1, hf1, h]
    · simp only [memoryBackend, fileBackend, hm2, hf2, h]
  scan h _ := by simp only [memoryBackend, fileBackend, Memory.KVServer.scan, File.KVServer.scan, h]

theorem memory_sqlite_simulation (sc : Sqlite.Schema) :
    Simulation memoryBackend (sqliteBackend sc) (fun m q => m.tree = q.tree)
      (fun _ insertOk _ => insertOk = true) where
  call {m q _ insertOk r} h hok := by
    subst hok
    obtain ⟨reply, hr⟩ : ∃ reply, (q.handle sc true r).1 = .ok reply := by
      have := Sqlite.KVServer.handle_true_isOk sc q r
      revert this
      cases (q.handle sc true r).1 <;> simp [Except.isOk, Except.toBool]
    obtain ⟨hq1, hq2⟩ := Sqlite.KVServer.handle_refines hr
    obtain ⟨hm1, hm2⟩ := Memory.KVServer.handle_apply m r
    refine ⟨?_, BTree.eq_of_toMap_eq ?_⟩
    · simp only [memoryBackend, sqliteBackend, hr, Except.toOption, hm1, hq1, h]
    · simp only [memoryBackend, sqliteBackend, hm2, hq2, h]
  scan h _ := by
    simp only [memoryBackend, sqliteBackend, Memory.KVServer.scan, Sqlite.KVServer.scan, h]

/-- Through this client the three servers are one service: from one tree, fed
the same lines, with devices that do not fail and every command within a WAL
frame, and with every `INSERT` succeeding, the file-backed and the SQLite
servers print what the in-memory server prints, log what it logs, and end
with the tree it ends with. -/
theorem client_sees_one_service (upper : Char → Char) (sc : Sqlite.Schema) (lines : List String)
    (m : Memory.KVServer) (f : File.KVServer) (q : Sqlite.KVServer) (hf : m.tree = f.tree)
    (hq : m.tree = q.tree)
    (hfits : ∀ text ∈ lines, ∀ r, lineAction upper text = .call (.point r) →
      ∀ cmd ∈ (File.commandOf r).toList, File.Fits cmd) :
    let sm := stdinMode memoryBackend upper ⟨m, [], []⟩ (lines.map (·, ()))
    let sf := stdinMode fileBackend upper ⟨f, [], []⟩ (lines.map (·, .reliable))
    let sq := stdinMode (sqliteBackend sc) upper ⟨q, [], []⟩ (lines.map (·, true))
    (sf.out = sm.out ∧ sf.log = sm.log ∧ sf.server.tree = sm.server.tree) ∧
      (sq.out = sm.out ∧ sq.log = sm.log ∧ sq.server.tree = sm.server.tree) := by
  have hF : Alike (fun m f => m.tree = f.tree)
      (stdinMode memoryBackend upper ⟨m, [], []⟩ (lines.map (·, ())))
      (stdinMode fileBackend upper ⟨f, [], []⟩ (lines.map (·, .reliable))) := by
    refine memory_file_simulation.stdinMode upper ⟨hf, rfl, rfl⟩ ?_
    rw [List.forall₂_map_left_iff, List.forall₂_map_right_iff, List.forall₂_same]
    intro text ht
    refine ⟨rfl, fun c hc => ?_⟩
    cases c with
    | point r => exact ⟨rfl, hfits text ht r hc⟩
    | scan => trivial
  have hQ : Alike (fun m q => m.tree = q.tree)
      (stdinMode memoryBackend upper ⟨m, [], []⟩ (lines.map (·, ())))
      (stdinMode (sqliteBackend sc) upper ⟨q, [], []⟩ (lines.map (·, true))) := by
    refine (memory_sqlite_simulation sc).stdinMode upper ⟨hq, rfl, rfl⟩ ?_
    rw [List.forall₂_map_left_iff, List.forall₂_map_right_iff, List.forall₂_same]
    exact fun _ _ => ⟨rfl, fun _ _ => rfl⟩
  exact ⟨⟨hF.out.symm, hF.log.symm, hF.server.symm⟩, ⟨hQ.out.symm, hQ.log.symm, hQ.server.symm⟩⟩

/-- A `PUT`, a lower-case `get`, a `SCAN` and a `STOP`, on three fresh servers. -/
theorem client_sees_one_service_put_get_scan :
    let lines := ["PUT a 1", "get a", "SCAN a z", "STOP"]
    let sm := stdinMode memoryBackend id ⟨Memory.newKVServer, [], []⟩ (lines.map (·, ()))
    let sf := stdinMode fileBackend id ⟨⟨BTree.empty, []⟩, [], []⟩ (lines.map (·, .reliable))
    let sq := stdinMode (sqliteBackend .sample) id ⟨⟨BTree.empty, .empty⟩, [], []⟩
      (lines.map (·, true))
    (∀ text ∈ lines, ∀ r, lineAction id text = .call (.point r) →
        ∀ cmd ∈ (File.commandOf r).toList, File.Fits cmd) ∧
      (sf.out = sm.out ∧ sf.log = sm.log ∧ sf.server.tree = sm.server.tree) ∧
      (sq.out = sm.out ∧ sq.log = sm.log ∧ sq.server.tree = sm.server.tree) :=
  have hfits : ∀ text ∈ ["PUT a 1", "get a", "SCAN a z", "STOP"], ∀ r,
      lineAction id text = .call (.point r) → ∀ cmd ∈ (File.commandOf r).toList, File.Fits cmd := by
    intro text ht r hr
    simp only [List.mem_cons, List.mem_singleton, List.not_mem_nil, or_false] at ht
    rcases ht with rfl | rfl | rfl | rfl
    · rw [show lineAction id "PUT a 1" = .call (.point (.put "a" "1")) by decide] at hr
      cases hr
      decide
    · rw [show lineAction id "get a" = .call (.point (.get "a")) by decide] at hr
      cases hr
      decide
    · rw [show lineAction id "SCAN a z" = .call (.scan "a" "z") by decide] at hr
      cases hr
    · rw [show lineAction id "STOP" = .stop by decide] at hr
      cases hr
  ⟨hfits, client_sees_one_service id .sample _ Memory.newKVServer _ _ rfl rfl hfits⟩

/-! ## A crash after a session -/

theorem Session.serve_preserves {b : Backend S E} {P : S → Prop} {Q : E → Prop}
    (hP : ∀ s e r, P s → Q e → P (b.call s e r).2) {ss : Session S} (h : P ss.server) {e : E}
    (he : Q e) : ∀ c : Call, P (ss.serve b e c).server
  | .point r => by rw [serve]; split <;> exact hP _ _ _ h he
  | .scan _ _ => by rw [serve]; split <;> exact h

/-- What every call keeps true of the server, in the environments the lines
meet, holds at the end of every session. -/
theorem stdinMode_preserves {b : Backend S E} {P : S → Prop} {Q : E → Prop}
    (hP : ∀ s e r, P s → Q e → P (b.call s e r).2) (upper : Char → Char) :
    ∀ (ss : Session S) (lines : List (String × E)), (∀ x ∈ lines, Q x.2) → P ss.server →
      P (stdinMode b upper ss lines).server
  | _, [], _, h => h
  | ss, (text, e) :: lines, hl, h => by
      have hl' : ∀ x ∈ lines, Q x.2 := fun x hx => hl x (.tail _ hx)
      rw [stdinMode, Session.line]
      cases lineAction upper text with
      | call c =>
          exact stdinMode_preserves hP upper _ lines hl'
            (Session.serve_preserves hP h (hl _ (.head _)) c)
      | stop => exact h
      | skip | complain _ | unknown _ => exact stdinMode_preserves hP upper _ lines hl' h

/-- A crash after any session with the file-backed server, on devices that do
not fail, loses nothing and brings nothing back: `newKVServer` on the file the
session leaves rebuilds the server the session ended with, every acknowledged
write in it and none of the refused ones; and the log is consistent again, so
the next session starts where this one stopped. -/
theorem session_survives_crash (upper : Char → Char) (lines : List String)
    {cs : List File.WalCommand} {f : File.KVServer} (hf : File.Consistent cs f) :
    let sf := (stdinMode fileBackend upper ⟨f, [], []⟩ (lines.map (·, .reliable))).server
    (∃ cs', File.Consistent cs' sf) ∧ File.newKVServer sf.logFile = .ok sf := by
  obtain ⟨cs', hc⟩ : ∃ cs', File.Consistent cs' (stdinMode fileBackend upper ⟨f, [], []⟩
      (lines.map (·, .reliable))).server :=
    stdinMode_preserves (P := fun s => ∃ cs', File.Consistent cs' s) (Q := (· = .reliable))
      (fun s _ r ⟨_, hs⟩ he => he ▸ File.consistent_handle_reliable hs r) upper _ _
      (by simp) ⟨cs, hf⟩
  exact ⟨⟨cs', hc⟩, File.newKVServer_consistent hc⟩

/-- A `PUT` and a `GET` on a fresh server, then a crash. -/
theorem session_survives_crash_put_get :
    File.Consistent [] ⟨BTree.empty, []⟩ ∧
      let sf := (stdinMode fileBackend id ⟨⟨BTree.empty, []⟩, [], []⟩
        (["PUT a 1", "GET a"].map (·, .reliable))).server
      (∃ cs', File.Consistent cs' sf) ∧ File.newKVServer sf.logFile = .ok sf :=
  ⟨File.consistent_nil, session_survives_crash id ["PUT a 1", "GET a"] File.consistent_nil⟩

end Client

end KVStore
