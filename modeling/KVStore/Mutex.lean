/-
# `KVStore.Mutex` — requests served concurrently under `s.mu`

## What is proved

gRPC serves every request on a goroutine of its own, and every handler of the
three servers begins with

    s.mu.Lock()
    defer s.mu.Unlock()

so its body runs with the lock held, in the steps its source takes, and the
lock is released as it returns.  For every interleaving of the goroutines'
steps from a server `s₀` (`Reach`), and every world `w` it comes to:

    at most one goroutine is in its body, and it holds the lock;
    w.lock = none → the server is the calls run one at a time in the order
                    they took the lock, and the n-th of them returned the n-th reply

(`linearizable`).  That order only grows at its end (`Step.order_prefix`), so
a call that returned while another still waited for the lock comes first in it
(`returned_before`): each request takes effect at the moment it takes the
lock.

## How

The model is generic in the server.  A handler is the steps its body takes on
the shared server and a local state, from the call's start to a reply
(`Handler`).  The invariant (`Inv`) says that every goroutine that took the
lock but the last has returned the reply of the sequential run, and that the
last, if it holds the lock, is part way through its body on the server that run
left (`Handler.Partial`).

Each server's handler, in the steps of its source (a durable server's
mutation: `Get` the key, append the command, `applyCommand` it), completes
alone as its sequential `handle` does (`File.completes_handle`,
`Sqlite.completes_handle`, `Memory.completes_handle`), so the sequential run in
lock order is the servers' `run` (`servers_linearizable`).

`Scan` takes the same lock and only reads the tree.  `Handler.withScan` puts it
beside any server's point handlers; the combined handler completes as
`serveCall` does, so the generic result gives `scans_linearizable`: every
`Scan` returns the pairs of the tree that the calls before it in lock order
left, and never sees a mutation part done (a durable server's appended but not
yet applied command, say).
-/
import KVStore.Refinement

namespace KVStore

/-! ## Handlers, run alone -/

/-- The body of a handler, with the lock held: the local state a call starts
in, and one step, which changes the shared state and goes on (`inl`) or returns
a reply (`inr`). -/
structure Handler (σ ρ κ α : Type) where
  start : ρ → κ
  step : σ → κ → σ × (κ ⊕ α)

namespace Handler

variable {σ ρ κ α : Type} (h : Handler σ ρ κ α)

/-- Run alone from `k` on `s`, the body returns `a` and leaves `s'`. -/
inductive Completes : σ → κ → σ → α → Prop
  | ret {s k s' a} : h.step s k = (s', .inr a) → Completes s k s' a
  | next {s k s₁ k₁ s' a} : h.step s k = (s₁, .inl k₁) → Completes s₁ k₁ s' a →
      Completes s k s' a

/-- Run alone from `k` on `s`, the body has come to `k'` on `s'` and not yet
returned. -/
inductive Partial : σ → κ → σ → κ → Prop
  | refl {s k} : Partial s k s k
  | step {s k s₁ k₁ s' k'} : Partial s k s₁ k₁ → h.step s₁ k₁ = (s', .inl k') →
      Partial s k s' k'

/-- The calls served one at a time, in order: the server left, and the
replies. -/
inductive SeqRun : σ → List ρ → σ → List α → Prop
  | nil {s} : SeqRun s [] s []
  | snoc {s cs s₁ as c s' a} : SeqRun s cs s₁ as → h.Completes s₁ (h.start c) s' a →
      SeqRun s (cs ++ [c]) s' (as ++ [a])

variable {h}

theorem Completes.det {s s₁ s₂ : σ} {a₁ a₂ : α} {k : κ} (h₁ : h.Completes s k s₁ a₁)
    (h₂ : h.Completes s k s₂ a₂) : s₁ = s₂ ∧ a₁ = a₂ := by
  induction h₁ with
  | ret e => cases h₂ with
    | ret e' => rw [e] at e'; cases e'; exact ⟨rfl, rfl⟩
    | next e' _ => rw [e] at e'; cases e'
  | next e _ ih => cases h₂ with
    | ret e' => rw [e] at e'; cases e'
    | next e' h₂ => rw [e] at e'; cases e'; exact ih h₂

/-- A body part way through that then completes has completed from its start. -/
theorem Partial.completes {s s₁ s' : σ} {a : α} {k k₁ : κ} (hp : h.Partial s k s₁ k₁) :
    h.Completes s₁ k₁ s' a → h.Completes s k s' a := by
  induction hp with
  | refl => exact id
  | step _ e ih => exact fun hc => ih (.next e hc)

/-! ## Goroutines and the lock -/

/-- Where a goroutine is in its handler. -/
inductive Phase (κ α : Type) where
  /-- Not yet past `s.mu.Lock()`. -/
  | waiting
  /-- In the body, with the lock. -/
  | holding (k : κ)
  /-- Returned `a`; the deferred `Unlock` released the lock. -/
  | returned (a : α)

/-- The server, its lock, where each goroutine is, and, as a ghost, the
goroutines in the order in which they took the lock. -/
structure World (σ κ α : Type) where
  shared : σ
  lock : Option Nat
  phase : Nat → Phase κ α
  order : List Nat

/-- No request has begun. -/
def World.init (s : σ) : World σ κ α := ⟨s, none, fun _ => .waiting, []⟩

variable (h) (calls : Nat → ρ)

/-- One step of one goroutine `i`, whose call is `calls i`: take the free lock,
take a step of the body, or take its last step and return, releasing the
lock. -/
inductive Step : World σ κ α → World σ κ α → Prop
  | lock {w : World σ κ α} {i : Nat} : w.phase i = .waiting → w.lock = none →
      Step w ⟨w.shared, some i, Function.update w.phase i (.holding (h.start (calls i))),
        w.order ++ [i]⟩
  | body {w : World σ κ α} {i : Nat} {k k' : κ} {s' : σ} : w.phase i = .holding k →
      h.step w.shared k = (s', .inl k') →
      Step w ⟨s', w.lock, Function.update w.phase i (.holding k'), w.order⟩
  | unlock {w : World σ κ α} {i : Nat} {k : κ} {s' : σ} {a : α} : w.phase i = .holding k →
      h.step w.shared k = (s', .inr a) →
      Step w ⟨s', none, Function.update w.phase i (.returned a), w.order⟩

/-- The worlds an interleaving reaches from the server `s`. -/
inductive Reach (s : σ) : World σ κ α → Prop
  | init : Reach s (.init s)
  | step {w w' : World σ κ α} : Reach s w → Step h calls w w' → Reach s w'

/-- The world is the calls served one at a time in lock order: every goroutine
that took the lock but the holder has returned the sequential run's reply, and
the holder is part way through its body on the server that run left. -/
structure Inv (s₀ : σ) (w : World σ κ α) : Prop where
  nodup : w.order.Nodup
  waiting : ∀ i, i ∉ w.order → w.phase i = .waiting
  served : ∃ done s as, h.SeqRun s₀ (done.map calls) s as ∧
    List.Forall₂ (fun i a => w.phase i = .returned a) done as ∧
    ((w.lock = none ∧ w.order = done ∧ w.shared = s) ∨
      ∃ i k, w.lock = some i ∧ w.order = done ++ [i] ∧ w.phase i = .holding k ∧
        h.Partial s (h.start (calls i)) w.shared k)

variable {h calls}

theorem Step.order_prefix {w w' : World σ κ α} (hs : Step h calls w w') : w.order <+: w'.order := by
  cases hs with
  | lock => exact List.prefix_append _ _
  | body => exact List.prefix_refl _
  | unlock => exact List.prefix_refl _

theorem inv_init (s₀ : σ) : Inv h calls s₀ (.init s₀) :=
  ⟨List.nodup_nil, fun _ _ => rfl, [], s₀, [], .nil, .nil, .inl ⟨rfl, rfl, rfl⟩⟩

theorem forall₂_returned_mem {phase : Nat → Phase κ α} :
    ∀ {done : List Nat} {as : List α}, List.Forall₂ (fun j a => phase j = .returned a) done as →
      ∀ {i}, i ∈ done → ∃ a, phase i = .returned a
  | _, _, .cons hj _, _, .head _ => ⟨_, hj⟩
  | _, _, .cons _ hs, _, .tail _ m => forall₂_returned_mem hs m

/-- A goroutine outside `done` moving leaves the replies of `done` alone. -/
theorem forall₂_update {phase : Nat → Phase κ α} {i : Nat} {p : Phase κ α} :
    ∀ {done : List Nat} {as : List α}, List.Forall₂ (fun j a => phase j = .returned a) done as →
      i ∉ done → List.Forall₂ (fun j a => Function.update phase i p j = .returned a) done as
  | _, _, .nil, _ => .nil
  | j :: _, _, .cons hj hs, hi => .cons
      (by rwa [Function.update_noteq (by rintro rfl; exact hi (.head _))])
      (forall₂_update hs fun m => hi (.tail _ m))

/-- A goroutine in its body holds the lock, took it last, and is part way
through its body on the server the sequential run of the others left. -/
theorem Inv.holder {s₀ : σ} {w : World σ κ α} (hi : Inv h calls s₀ w) {i : Nat} {k : κ}
    (hk : w.phase i = .holding k) :
    ∃ done s as, h.SeqRun s₀ (done.map calls) s as ∧
      List.Forall₂ (fun j a => w.phase j = .returned a) done as ∧
      w.lock = some i ∧ w.order = done ++ [i] ∧ h.Partial s (h.start (calls i)) w.shared k := by
  obtain ⟨done, s, as, hseq, hf, hcase⟩ := hi.served
  have notdone : i ∉ done := fun m => by
    obtain ⟨a, ha⟩ := forall₂_returned_mem hf m
    rw [hk] at ha
    cases ha
  have ordered : i ∈ w.order := by
    by_contra hn
    rw [hi.waiting i hn] at hk
    cases hk
  rcases hcase with ⟨-, ho, -⟩ | ⟨j, k', hl, ho, hj, hp⟩
  · exact absurd (ho ▸ ordered) notdone
  · obtain rfl : i = j := by
      rw [ho, List.mem_append, List.mem_singleton] at ordered
      exact ordered.resolve_left notdone
    rw [hj] at hk
    cases hk
    exact ⟨done, s, as, hseq, hf, hl, ho, hp⟩

/-- A goroutine that took the lock moving leaves the others waiting. -/
theorem Inv.waiting_update {s₀ : σ} {w : World σ κ α} (hi : Inv h calls s₀ w) {i : Nat}
    (hin : i ∈ w.order) {p : Phase κ α} :
    ∀ j, j ∉ w.order → Function.update w.phase i p j = .waiting := fun j hj => by
  rw [Function.update_noteq fun (e : j = i) => hj (e ▸ hin)]
  exact hi.waiting j hj

/-- Every step keeps the invariant. -/
theorem Inv.step {s₀ : σ} {w w' : World σ κ α} (hi : Inv h calls s₀ w)
    (hs : Step h calls w w') : Inv h calls s₀ w' := by
  cases hs with
  | @lock i hw hl =>
      obtain ⟨done, s, as, hseq, hf, hcase⟩ := hi.served
      obtain ⟨-, ho, hsh⟩ : w.lock = none ∧ w.order = done ∧ w.shared = s := by
        rcases hcase with hc | ⟨j, k, hl', -⟩
        · exact hc
        · simp [hl] at hl'
      have hnot : i ∉ w.order := fun m => by
        obtain ⟨a, ha⟩ := forall₂_returned_mem hf (ho ▸ m)
        rw [hw] at ha
        cases ha
      refine ⟨List.nodup_append.2 ⟨hi.nodup, List.nodup_singleton i,
        fun _ ha hb => hnot (List.mem_singleton.1 hb ▸ ha)⟩,
        fun j hj => ?_, done, s, as, hseq, forall₂_update hf (ho ▸ hnot),
        .inr ⟨i, _, rfl, by rw [ho], Function.update_same _ _ _, hsh ▸ .refl⟩⟩
      dsimp only at hj ⊢
      rw [List.mem_append, List.mem_singleton, not_or] at hj
      rw [Function.update_noteq hj.2]
      exact hi.waiting j hj.1
  | @body i k k' s' hk he =>
      obtain ⟨done, s, as, hseq, hf, hl, ho, hp⟩ := hi.holder hk
      have hnot : i ∉ done := fun m =>
        (List.nodup_append.1 (ho ▸ hi.nodup)).2.2 m (List.mem_singleton_self i)
      exact ⟨hi.nodup, hi.waiting_update (by simp [ho]), done, s, as, hseq,
        forall₂_update hf hnot, .inr ⟨i, k', hl, ho, Function.update_same _ _ _, hp.step he⟩⟩
  | @unlock i k s' a hk he =>
      obtain ⟨done, s, as, hseq, hf, hl, ho, hp⟩ := hi.holder hk
      have hnot : i ∉ done := fun m =>
        (List.nodup_append.1 (ho ▸ hi.nodup)).2.2 m (List.mem_singleton_self i)
      refine ⟨hi.nodup, hi.waiting_update (by simp [ho]), done ++ [i], s', as ++ [a], ?_,
        List.rel_append (forall₂_update hf hnot) (.cons (Function.update_same _ _ _) .nil),
        .inl ⟨rfl, ho, rfl⟩⟩
      rw [List.map_append, List.map_singleton]
      exact hseq.snoc (hp.completes (.ret he))

theorem Reach.inv {s₀ : σ} {w : World σ κ α} (hr : Reach h calls s₀ w) : Inv h calls s₀ w := by
  induction hr with
  | init => exact inv_init s₀
  | step _ hs ih => exact ih.step hs

/-- A goroutine that took the lock is no longer waiting: it holds the lock or
has returned. -/
theorem Inv.not_waiting {s₀ : σ} {w : World σ κ α} (hi : Inv h calls s₀ w) {i : Nat}
    (hm : i ∈ w.order) : w.phase i ≠ .waiting := by
  obtain ⟨done, s, as, -, hf, hcase⟩ := hi.served
  have hdone : i ∈ done → w.phase i ≠ .waiting := fun hd hw => by
    obtain ⟨a, ha⟩ := forall₂_returned_mem hf hd
    rw [hw] at ha
    cases ha
  rcases hcase with ⟨-, ho, -⟩ | ⟨j, k, -, ho, hj, -⟩
  · exact hdone (ho ▸ hm)
  · rw [ho, List.mem_append, List.mem_singleton] at hm
    rcases hm with hd | rfl
    · exact hdone hd
    · rw [hj]
      exact Phase.noConfusion

theorem order_prefix_of_steps {w w' : World σ κ α}
    (hs : Relation.ReflTransGen (Step h calls) w w') : w.order <+: w'.order := by
  induction hs with
  | refl => exact List.prefix_refl _
  | tail _ hs ih => exact ih.trans hs.order_prefix

/-- Real-time order: a call that has returned while another still waits for
the lock comes before it in the lock order, and so in the sequential run
`linearizable` describes. -/
theorem returned_before {s₀ : σ} {w₁ w₂ : World σ κ α} (hr : Reach h calls s₀ w₁)
    (hs : Relation.ReflTransGen (Step h calls) w₁ w₂) {i j : Nat} {a : α}
    (hi : w₁.phase i = .returned a) (hj : w₁.phase j = .waiting) (hj₂ : j ∈ w₂.order) :
    List.Sublist [i, j] w₂.order := by
  have inv := hr.inv
  have hi₁ : i ∈ w₁.order := by
    by_contra hn
    rw [inv.waiting i hn] at hi
    cases hi
  obtain ⟨t, ht⟩ := order_prefix_of_steps hs
  rw [← ht] at hj₂ ⊢
  have hjt : j ∈ t := (List.mem_append.1 hj₂).resolve_left fun hm => inv.not_waiting hm hj
  exact (List.singleton_sublist.2 hi₁).append (List.singleton_sublist.2 hjt)

/-- On every interleaving: a goroutine in its body holds the lock, so at most
one is; and whenever the lock is free, the server and every reply so far are
those of the calls run one at a time in the order they took the lock. -/
theorem linearizable {s₀ : σ} {w : World σ κ α} (hr : Reach h calls s₀ w) :
    (∀ i k, w.phase i = .holding k → w.lock = some i) ∧
    (w.lock = none → ∃ as, h.SeqRun s₀ (w.order.map calls) w.shared as ∧
      List.Forall₂ (fun i a => w.phase i = .returned a) w.order as) := by
  have hi := hr.inv
  refine ⟨fun i k hk => (hi.holder hk).choose_spec.choose_spec.choose_spec.2.2.1, fun hl => ?_⟩
  obtain ⟨done, s, as, hseq, hf, ⟨-, ho, hsh⟩ | ⟨j, k, hl', -⟩⟩ := hi.served
  · subst ho hsh
    exact ⟨as, hseq, hf⟩
  · simp [hl] at hl'

/-- `linearizable` for a server whose sequential runs are those of a
function `run`. -/
theorem linearizable_run {run : σ → List ρ → List α × σ}
    (hrun : ∀ {s cs s' as}, h.SeqRun s cs s' as → run s cs = (as, s')) {s₀ : σ}
    {w : World σ κ α} (hr : Reach h calls s₀ w) :
    (∀ i k, w.phase i = .holding k → w.lock = some i) ∧
    (w.lock = none → (run s₀ (w.order.map calls)).2 = w.shared ∧
      List.Forall₂ (fun i a => w.phase i = .returned a) w.order (run s₀ (w.order.map calls)).1) := by
  refine ⟨(linearizable hr).1, fun hl => ?_⟩
  obtain ⟨as, hseq, hf⟩ := (linearizable hr).2 hl
  rw [hrun hseq]
  exact ⟨rfl, hf⟩

/-! ## `Scan` beside the point handlers -/

/-- A server's handlers with `Scan` beside them.  `Scan` takes the same lock,
and its body only reads the tree while it holds it, so it is one step here: it
returns what `scan` reads and leaves the server as it was. -/
def withScan (h : Handler σ ρ κ α) (scan : σ → String → String → List KVPair) :
    Handler σ (ρ ⊕ String × String) (κ ⊕ String × String) (α ⊕ List KVPair) where
  start := Sum.map h.start id
  step s k := match k with
    | .inl k => ((h.step s k).1, Sum.map .inl .inl (h.step s k).2)
    | .inr (a, z) => (s, .inr (.inr (scan s a z)))

/-- One call served alone: a point call by `f`, a `Scan` by `scan`. -/
def serveCall (f : σ → ρ → α × σ) (scan : σ → String → String → List KVPair) (s : σ) :
    ρ ⊕ String × String → (α ⊕ List KVPair) × σ
  | .inl c => (.inl (f s c).1, (f s c).2)
  | .inr (a, z) => (.inr (scan s a z), s)

/-- The calls served one at a time, each on the server the calls before it
left. -/
def runCalls (f : σ → ρ → α × σ) (scan : σ → String → String → List KVPair) :
    σ → List (ρ ⊕ String × String) → List (α ⊕ List KVPair) × σ
  | s, [] => ([], s)
  | s, c :: cs =>
    ((serveCall f scan s c).1 :: (runCalls f scan (serveCall f scan s c).2 cs).1,
      (runCalls f scan (serveCall f scan s c).2 cs).2)

theorem runCalls_append (f : σ → ρ → α × σ) (scan : σ → String → String → List KVPair) :
    ∀ (s : σ) (cs : List (ρ ⊕ String × String)) (c : ρ ⊕ String × String),
      runCalls f scan s (cs ++ [c]) =
        ((runCalls f scan s cs).1 ++ [(serveCall f scan (runCalls f scan s cs).2 c).1],
          (serveCall f scan (runCalls f scan s cs).2 c).2)
  | _, [], _ => rfl
  | s, c' :: cs, c => by
      rw [List.cons_append, runCalls, runCalls_append f scan _ cs c, runCalls]
      rfl

variable {scan : σ → String → String → List KVPair}

theorem Completes.withScan {s s' : σ} {k : κ} {a : α} (hc : h.Completes s k s' a) :
    (h.withScan scan).Completes s (.inl k) s' (.inl a) := by
  induction hc with
  | ret e => exact .ret (by simp only [Handler.withScan, e]; rfl)
  | next e _ ih => exact .next (by simp only [Handler.withScan, e]; rfl) ih

section
variable {f : σ → ρ → α × σ} (hf : ∀ s c, h.Completes s (h.start c) (f s c).2 (f s c).1)
include hf

theorem completes_serveCall (s : σ) (c : ρ ⊕ String × String) :
    (h.withScan scan).Completes s ((h.withScan scan).start c) (serveCall f scan s c).2
      (serveCall f scan s c).1 := by
  cases c with
  | inl c => exact (hf s c).withScan
  | inr c => exact .ret rfl

theorem seqRun_runCalls {s s' : σ} {cs : List (ρ ⊕ String × String)} {as : List (α ⊕ List KVPair)}
    (hs : (h.withScan scan).SeqRun s cs s' as) : runCalls f scan s cs = (as, s') := by
  induction hs with
  | nil => rfl
  | @snoc cs s₁ as c s' a _ hc ih =>
      obtain ⟨rfl, rfl⟩ := hc.det (completes_serveCall hf s₁ c)
      rw [runCalls_append, ih]

/-- With `Scan` beside them, handlers that complete as `f` does are still
linearizable, and every `Scan` reads the server the calls before it in lock
order left. -/
theorem linearizable_withScan {calls : Nat → ρ ⊕ String × String} {s₀ : σ}
    {w : World σ (κ ⊕ String × String) (α ⊕ List KVPair)} (hr : (h.withScan scan).Reach calls s₀ w) :
    (∀ i k, w.phase i = .holding k → w.lock = some i) ∧
    (w.lock = none → (runCalls f scan s₀ (w.order.map calls)).2 = w.shared ∧
      List.Forall₂ (fun i a => w.phase i = .returned a) w.order
        (runCalls f scan s₀ (w.order.map calls)).1) :=
  linearizable_run (seqRun_runCalls hf) hr

end

end Handler

/-! ## The in-memory server -/

namespace Memory

/-- Where a body of the in-memory server is, the lock held: at its start, or,
in `Swap`, after `s.tree.Get` with the item read. -/
inductive Local where
  | start (r : Request)
  | read (key value : String) (got : Option Item)

/-- One step of a body of `src/unnamed/part_001`: `Put` and `Delete` change
the tree and return, `Get` reads and returns, `Swap` reads, then writes and
returns. -/
def bodyStep (s : KVServer) : Local → KVServer × (Local ⊕ Reply)
  | .start (.put k v) =>
    (⟨(s.tree.replaceOrInsert ⟨k, v⟩).2⟩, .inr (.put ⟨(s.tree.replaceOrInsert ⟨k, v⟩).1.isSome⟩))
  | .start (.get k) => (s, .inr (.get (s.get k)))
  | .start (.swap k v) => (s, .inl (.read k v (s.tree.get k)))
  | .start (.delete k) => (⟨(s.tree.delete k).2⟩, .inr (.delete ⟨(s.tree.delete k).1.isSome⟩))
  | .read k v got => (⟨(s.tree.replaceOrInsert ⟨k, v⟩).2⟩, .inr (.swap (swapReply got)))

/-- The handlers of the in-memory server. -/
def handler : Handler KVServer Request Local Reply := ⟨.start, bodyStep⟩

theorem completes_handle (s : KVServer) (r : Request) :
    handler.Completes s (handler.start r) (s.handle r).2 (s.handle r).1 := by
  cases r with
  | swap k v => exact .next rfl (.ret rfl)
  | _ => exact .ret rfl

theorem KVServer.run_append (s : KVServer) (rs : List Request) (r : Request) :
    s.run (rs ++ [r]) = ((s.run rs).1 ++ [((s.run rs).2.handle r).1], ((s.run rs).2.handle r).2) := by
  induction rs generalizing s with
  | nil => rfl
  | cons r' rs ih =>
      rw [List.cons_append, KVServer.run, ih, KVServer.run]
      rfl

theorem seqRun_run {s s' : KVServer} {rs : List Request} {as : List Reply}
    (h : handler.SeqRun s rs s' as) : s.run rs = (as, s') := by
  induction h with
  | nil => rfl
  | @snoc cs s₁ as c s' a _ hc ih =>
      obtain ⟨rfl, rfl⟩ := hc.det (completes_handle s₁ c)
      rw [KVServer.run_append, ih]

/-- A `Put` returns while a `Get` waits; then the `Get` takes the lock, after
the `Put` in the lock order. -/
theorem returned_before_put_get :
    ∃ (w₁ w₂ : Handler.World KVServer Local Reply) (a : Reply),
      handler.Reach (fun i => if i = 0 then .put "a" "1" else .get "a") newKVServer w₁ ∧
      Relation.ReflTransGen (handler.Step fun i => if i = 0 then .put "a" "1" else .get "a")
        w₁ w₂ ∧
      w₁.phase 0 = .returned a ∧ w₁.phase 1 = .waiting ∧ 1 ∈ w₂.order ∧
      List.Sublist [0, 1] w₂.order := by
  have r₀ : handler.Reach (fun i => if i = 0 then .put "a" "1" else .get "a") newKVServer
      (.init newKVServer) := .init
  have r₂ := (r₀.step (.lock (i := 0) rfl rfl)).step (.unlock (i := 0) rfl rfl)
  have hm : 1 ∈ [0] ++ [1] := List.mem_append_right _ (List.mem_singleton_self 1)
  exact ⟨_, _, _, r₂, .single (.lock (i := 1) rfl rfl), rfl, rfl, hm,
    Handler.returned_before r₂ (.single (.lock (i := 1) rfl rfl)) rfl rfl hm⟩

end Memory

/-! ## The file-backed server -/

namespace File

/-- Where a body of the file-backed server is, the lock held: at its start;
after `s.tree.Get`, with the command to log, how the reply is made from the
item read, and that item; after an `appendWAL` that succeeded. -/
inductive Local where
  | start (dev : Device) (r : Request)
  | read (dev : Device) (cmd : WalCommand) (reply : Option Item → Reply) (prev : Option Item)
  | logged (cmd : WalCommand) (reply : Option Item → Reply) (prev : Option Item)

/-- One step of a body of `src/kvstore/server/main.go`: `Get` reads and
returns; a mutation reads its key with `s.tree.Get`, then calls `appendWAL`
and returns its error or goes on, then calls `applyCommand` and returns. -/
def bodyStep (s : KVServer) : Local → KVServer × (Local ⊕ Except WalError Reply)
  | .start _ (.get k) => (s, .inr (.ok (.get (s.get k))))
  | .start dev (.put k v) =>
    (s, .inl (.read dev ⟨"put", k, v⟩ (fun prev => .put ⟨prev.isSome⟩) (s.tree.get k)))
  | .start dev (.swap k v) =>
    (s, .inl (.read dev ⟨"swap", k, v⟩ (fun got => .swap (swapReply got)) (s.tree.get k)))
  | .start dev (.delete k) =>
    (s, .inl (.read dev ⟨"delete", k, ""⟩ (fun del => .delete ⟨del.isSome⟩) (s.tree.get k)))
  | .read dev cmd reply prev =>
    match appendWAL dev cmd s.logFile with
    | (some e, file) => (⟨s.tree, file⟩, .inr (.error e))
    | (none, file) => (⟨s.tree, file⟩, .inl (.logged cmd reply prev))
  | .logged cmd reply prev => (⟨applyCommand s.tree cmd, s.logFile⟩, .inr (.ok (reply prev)))

/-- The handlers of the file-backed server; a call is how the device treats
its append, and the request. -/
def handler : Handler KVServer (Device × Request) Local (Except WalError Reply) :=
  ⟨fun c => .start c.1 c.2, bodyStep⟩

/-- The append and the update of a mutation, after its `Get`, are `mutate`. -/
theorem completes_read {β : Type} (s : KVServer) (dev : Device) (cmd : WalCommand)
    (g : Option Item → β) (C : β → Reply) :
    handler.Completes s (.read dev cmd (fun p => C (g p)) (s.tree.get cmd.key)) (s.mutate dev cmd).2
      (((s.mutate dev cmd).1.map g).map C) := by
  unfold KVServer.mutate
  rcases hw : appendWAL dev cmd s.logFile with ⟨_ | e, file⟩
  · have e : handler.step s (.read dev cmd (fun p => C (g p)) (s.tree.get cmd.key)) =
        (⟨s.tree, file⟩, .inl (.logged cmd (fun p => C (g p)) (s.tree.get cmd.key))) := by
      simp only [handler, bodyStep, hw]
    exact .next e (.ret rfl)
  · exact .ret (by simp only [handler, bodyStep, hw]; rfl)

theorem completes_handle (s : KVServer) (c : Device × Request) :
    handler.Completes s (handler.start c) (s.handle c.1 c.2).2 (s.handle c.1 c.2).1 := by
  obtain ⟨dev, r⟩ := c
  cases r with
  | get k => exact .ret rfl
  | put k v | swap k v | delete k =>
      simp only [KVServer.handle, KVServer.put, KVServer.swap, KVServer.delete]
      exact .next rfl (completes_read _ _ _ _ _)

theorem KVServer.run_append (s : KVServer) (cs : List (Device × Request)) (c : Device × Request) :
    s.run (cs ++ [c]) =
      ((s.run cs).1 ++ [((s.run cs).2.handle c.1 c.2).1], ((s.run cs).2.handle c.1 c.2).2) := by
  induction cs generalizing s with
  | nil => rfl
  | cons c' cs ih =>
      rw [List.cons_append, KVServer.run, ih, KVServer.run]
      rfl

theorem seqRun_run {s s' : KVServer} {cs : List (Device × Request)} {as : List (Except WalError Reply)}
    (h : handler.SeqRun s cs s' as) : s.run cs = (as, s') := by
  induction h with
  | nil => rfl
  | @snoc cs s₁ as c s' a _ hc ih =>
      obtain ⟨rfl, rfl⟩ := hc.det (completes_handle s₁ c)
      rw [KVServer.run_append, ih]

end File

/-! ## The SQLite server -/

namespace Sqlite

/-- Where a body of the SQLite server is, the lock held: at its start; after
`s.tree.Get`, with the command to log, how the reply is made from the item
read, and that item; after an `appendLog` that succeeded. -/
inductive Local where
  | start (insertOk : Bool) (r : Request)
  | read (insertOk : Bool) (cmd : WALCommand) (reply : Option Item → Reply) (prev : Option Item)
  | logged (cmd : WALCommand) (reply : Option Item → Reply) (prev : Option Item)

/-- One step of a body of `src/unnamed/part_002`: `Get` reads and returns; a
mutation reads its key with `s.tree.Get`, then calls `appendLog` and returns its
error or goes on, then calls `applyCommand` and returns. -/
def bodyStep (sc : Schema) (s : KVServer) : Local → KVServer × (Local ⊕ Except LogError Reply)
  | .start _ (.get k) => (s, .inr (.ok (.get (s.get k))))
  | .start ok (.put k v) =>
    (s, .inl (.read ok ⟨sc.opPut, k, v⟩ (fun prev => .put ⟨prev.isSome⟩) (s.tree.get k)))
  | .start ok (.swap k v) =>
    (s, .inl (.read ok ⟨sc.opSwap, k, v⟩ (fun got => .swap (swapReply got)) (s.tree.get k)))
  | .start ok (.delete k) =>
    (s, .inl (.read ok ⟨sc.opDelete, k, ""⟩ (fun del => .delete ⟨del.isSome⟩) (s.tree.get k)))
  | .read ok cmd reply prev =>
    match appendLog sc ok cmd s.db with
    | (some e, db) => (⟨s.tree, db⟩, .inr (.error e))
    | (none, db) => (⟨s.tree, db⟩, .inl (.logged cmd reply prev))
  | .logged cmd reply prev => (⟨applyCommand sc s.tree cmd, s.db⟩, .inr (.ok (reply prev)))

/-- The handlers of the SQLite server; a call is whether its `INSERT`
succeeds, and the request. -/
def handler (sc : Schema) : Handler KVServer (Bool × Request) Local (Except LogError Reply) :=
  ⟨fun c => .start c.1 c.2, bodyStep sc⟩

/-- The append and the update of a mutation, after its `Get`, are `mutate`. -/
theorem completes_read {β : Type} (sc : Schema) (s : KVServer) (ok : Bool) (cmd : WALCommand)
    (g : Option Item → β) (C : β → Reply) :
    (handler sc).Completes s (.read ok cmd (fun p => C (g p)) (s.tree.get cmd.key))
      (s.mutate sc ok cmd).2 (((s.mutate sc ok cmd).1.map g).map C) := by
  unfold KVServer.mutate
  rcases hw : appendLog sc ok cmd s.db with ⟨_ | e, db⟩
  · have e : (handler sc).step s (.read ok cmd (fun p => C (g p)) (s.tree.get cmd.key)) =
        (⟨s.tree, db⟩, .inl (.logged cmd (fun p => C (g p)) (s.tree.get cmd.key))) := by
      simp only [handler, bodyStep, hw]
    exact .next e (.ret rfl)
  · exact .ret (by simp only [handler, bodyStep, hw]; rfl)

theorem completes_handle (sc : Schema) (s : KVServer) (c : Bool × Request) :
    (handler sc).Completes s ((handler sc).start c) (s.handle sc c.1 c.2).2 (s.handle sc c.1 c.2).1 := by
  obtain ⟨ok, r⟩ := c
  cases r with
  | get k => exact .ret rfl
  | put k v | swap k v | delete k =>
      simp only [KVServer.handle, KVServer.put, KVServer.swap, KVServer.delete]
      exact .next rfl (completes_read _ _ _ _ _ _)

theorem KVServer.run_append (sc : Schema) (s : KVServer) (cs : List (Bool × Request))
    (c : Bool × Request) :
    s.run sc (cs ++ [c]) =
      ((s.run sc cs).1 ++ [((s.run sc cs).2.handle sc c.1 c.2).1],
        ((s.run sc cs).2.handle sc c.1 c.2).2) := by
  induction cs generalizing s with
  | nil => rfl
  | cons c' cs ih =>
      rw [List.cons_append, KVServer.run, ih, KVServer.run]
      rfl

theorem seqRun_run {sc : Schema} {s s' : KVServer} {cs : List (Bool × Request)}
    {as : List (Except LogError Reply)} (h : (handler sc).SeqRun s cs s' as) :
    s.run sc cs = (as, s') := by
  induction h with
  | nil => rfl
  | @snoc cs s₁ as c s' a _ hc ih =>
      obtain ⟨rfl, rfl⟩ := hc.det (completes_handle sc s₁ c)
      rw [KVServer.run_append, ih]

end Sqlite

/-- The three servers are linearizable: on every interleaving of their
goroutines' steps, in the order of their source, at most one goroutine is in
its body, the one holding the lock; and whenever the lock is free, the server
is the sequential `run` of the calls in the order they took the lock, and the
n-th of them returned the n-th reply of that run. -/
theorem servers_linearizable :
    (∀ (calls : Nat → Request) (s₀ : Memory.KVServer)
      (w : Handler.World Memory.KVServer Memory.Local Reply), Memory.handler.Reach calls s₀ w →
      (∀ i k, w.phase i = .holding k → w.lock = some i) ∧
      (w.lock = none → (s₀.run (w.order.map calls)).2 = w.shared ∧
        List.Forall₂ (fun i a => w.phase i = .returned a) w.order (s₀.run (w.order.map calls)).1)) ∧
    (∀ (calls : Nat → File.Device × Request) (s₀ : File.KVServer)
      (w : Handler.World File.KVServer File.Local (Except File.WalError Reply)),
      File.handler.Reach calls s₀ w →
      (∀ i k, w.phase i = .holding k → w.lock = some i) ∧
      (w.lock = none → (s₀.run (w.order.map calls)).2 = w.shared ∧
        List.Forall₂ (fun i a => w.phase i = .returned a) w.order (s₀.run (w.order.map calls)).1)) ∧
    (∀ (sc : Sqlite.Schema) (calls : Nat → Bool × Request) (s₀ : Sqlite.KVServer)
      (w : Handler.World Sqlite.KVServer Sqlite.Local (Except Sqlite.LogError Reply)),
      (Sqlite.handler sc).Reach calls s₀ w →
      (∀ i k, w.phase i = .holding k → w.lock = some i) ∧
      (w.lock = none → (s₀.run sc (w.order.map calls)).2 = w.shared ∧
        List.Forall₂ (fun i a => w.phase i = .returned a) w.order
          (s₀.run sc (w.order.map calls)).1)) :=
  ⟨fun _ _ _ hr => Handler.linearizable_run Memory.seqRun_run hr,
    fun _ _ _ hr => Handler.linearizable_run File.seqRun_run hr,
    fun _ _ _ _ hr => Handler.linearizable_run Sqlite.seqRun_run hr⟩

/-- One `Put` on the file-backed server, through every step of its body: the
lock, `Get`, `appendWAL`, `applyCommand` and the return. -/
theorem servers_linearizable_put :
    ∃ w : Handler.World File.KVServer File.Local (Except File.WalError Reply),
      File.handler.Reach (fun _ => (.reliable, .put "a" "1")) ⟨BTree.empty, []⟩ w ∧
      w.order = [0] ∧ w.lock = none ∧
      (∀ i k, w.phase i = .holding k → w.lock = some i) ∧
      (w.lock = none →
        ((⟨BTree.empty, []⟩ : File.KVServer).run
          (w.order.map fun _ => (.reliable, .put "a" "1"))).2 = w.shared ∧
        List.Forall₂ (fun i a => w.phase i = .returned a) w.order
          ((⟨BTree.empty, []⟩ : File.KVServer).run
            (w.order.map fun _ => (.reliable, .put "a" "1"))).1) := by
  have r₀ : File.handler.Reach (fun _ => (.reliable, .put "a" "1")) ⟨BTree.empty, []⟩
      (.init ⟨BTree.empty, []⟩) := .init
  have r₄ := (((r₀.step (.lock (i := 0) rfl rfl)).step (.body (i := 0) rfl rfl)).step
    (.body (i := 0) rfl rfl)).step (.unlock (i := 0) rfl rfl)
  exact ⟨_, r₄, rfl, rfl, servers_linearizable.2.1 _ _ _ r₄⟩

/-- With `Scan` beside the point handlers the three servers are still
linearizable: on every interleaving, at most one goroutine is in its body, the
one holding the lock; and whenever the lock is free, the server is the calls
run one at a time in the order they took the lock, each call returned that
run's reply, and so every `Scan` returned the pairs of the tree the calls
before it left, never a mutation part done. -/
theorem scans_linearizable :
    (∀ (calls : Nat → Request ⊕ String × String) (s₀ : Memory.KVServer)
      (w : Handler.World Memory.KVServer (Memory.Local ⊕ String × String) (Reply ⊕ List KVPair)),
      (Memory.handler.withScan Memory.KVServer.scan).Reach calls s₀ w →
      (∀ i k, w.phase i = .holding k → w.lock = some i) ∧
      (w.lock = none →
        (Handler.runCalls (·.handle ·) Memory.KVServer.scan s₀ (w.order.map calls)).2 = w.shared ∧
        List.Forall₂ (fun i a => w.phase i = .returned a) w.order
          (Handler.runCalls (·.handle ·) Memory.KVServer.scan s₀ (w.order.map calls)).1)) ∧
    (∀ (calls : Nat → (File.Device × Request) ⊕ String × String) (s₀ : File.KVServer)
      (w : Handler.World File.KVServer (File.Local ⊕ String × String)
        (Except File.WalError Reply ⊕ List KVPair)),
      (File.handler.withScan File.KVServer.scan).Reach calls s₀ w →
      (∀ i k, w.phase i = .holding k → w.lock = some i) ∧
      (w.lock = none →
        (Handler.runCalls (fun s c => s.handle c.1 c.2) File.KVServer.scan s₀
          (w.order.map calls)).2 = w.shared ∧
        List.Forall₂ (fun i a => w.phase i = .returned a) w.order
          (Handler.runCalls (fun s c => s.handle c.1 c.2) File.KVServer.scan s₀
            (w.order.map calls)).1)) ∧
    (∀ (sc : Sqlite.Schema) (calls : Nat → (Bool × Request) ⊕ String × String)
      (s₀ : Sqlite.KVServer)
      (w : Handler.World Sqlite.KVServer (Sqlite.Local ⊕ String × String)
        (Except Sqlite.LogError Reply ⊕ List KVPair)),
      ((Sqlite.handler sc).withScan Sqlite.KVServer.scan).Reach calls s₀ w →
      (∀ i k, w.phase i = .holding k → w.lock = some i) ∧
      (w.lock = none →
        (Handler.runCalls (fun s c => s.handle sc c.1 c.2) Sqlite.KVServer.scan s₀
          (w.order.map calls)).2 = w.shared ∧
        List.Forall₂ (fun i a => w.phase i = .returned a) w.order
          (Handler.runCalls (fun s c => s.handle sc c.1 c.2) Sqlite.KVServer.scan s₀
            (w.order.map calls)).1)) :=
  ⟨fun _ _ _ hr => Handler.linearizable_withScan Memory.completes_handle hr,
    fun _ _ _ hr => Handler.linearizable_withScan File.completes_handle hr,
    fun sc _ _ _ hr => Handler.linearizable_withScan (Sqlite.completes_handle sc) hr⟩

/-- A `Put`, then a `Scan` on the in-memory server, each taking the lock in
turn. -/
theorem scans_linearizable_put_scan :
    ∃ w : Handler.World Memory.KVServer (Memory.Local ⊕ String × String) (Reply ⊕ List KVPair),
      (Memory.handler.withScan Memory.KVServer.scan).Reach
        (fun i => if i = 0 then .inl (.put "a" "1") else .inr ("a", "z")) Memory.newKVServer w ∧
      w.order = [0, 1] ∧ w.lock = none ∧
      (∀ i k, w.phase i = .holding k → w.lock = some i) ∧
      (w.lock = none →
        (Handler.runCalls (·.handle ·) Memory.KVServer.scan Memory.newKVServer
          (w.order.map fun i => if i = 0 then .inl (.put "a" "1") else .inr ("a", "z"))).2 =
            w.shared ∧
        List.Forall₂ (fun i a => w.phase i = .returned a) w.order
          (Handler.runCalls (·.handle ·) Memory.KVServer.scan Memory.newKVServer
            (w.order.map fun i => if i = 0 then .inl (.put "a" "1") else .inr ("a", "z"))).1) := by
  have r₀ : (Memory.handler.withScan Memory.KVServer.scan).Reach
      (fun i => if i = 0 then .inl (.put "a" "1") else .inr ("a", "z")) Memory.newKVServer
      (.init Memory.newKVServer) := .init
  have r₄ := (((r₀.step (.lock (i := 0) rfl rfl)).step (.unlock (i := 0) rfl rfl)).step
    (.lock (i := 1) rfl rfl)).step (.unlock (i := 1) rfl rfl)
  exact ⟨_, r₄, rfl, rfl, scans_linearizable.1 _ _ _ r₄⟩

end KVStore
