/-
# `KVStore.Scan` — `Scan` returns exactly the inclusive range, in order

The three servers have the same `Scan`, word for word: it hands
`AscendGreaterOrEqual(item{key: startKey})` a visitor that stops at the first
key past `endKey` and appends every other pair to the reply.  The visitor
never looks back, so on its own it computes a `takeWhile`; what makes that the
range is that the tree is sorted, so once one key is past `endKey` every later
one is too, and the `takeWhile` is the `filter` (`takeWhile_eq_filter`).

`scan_eq_filter` is the whole behaviour; `scan_range` reads it back as what the
reply holds for the map the tree stands for.  Since the items ascend, a tree is
fixed by its map (`BTree.eq_of_toMap_eq`), so two trees standing for one map
answer every `Scan` alike.
-/
import KVStore.Index
import Mathlib.Data.List.Sort

namespace KVStore

/-- `kvpb.KVPair`: one pair of a `Scan` reply. -/
structure KVPair where
  key : String
  value : String
deriving DecidableEq, Repr

/-- The visitor `Scan` passes to `AscendGreaterOrEqual`: past `endKey` it
stops, otherwise it appends the pair and goes on. -/
def scanVisit (endKey : String) (pairs : List KVPair) (it : Item) : Bool × List KVPair :=
  if goLt endKey it.key then (false, pairs) else (true, pairs ++ [⟨it.key, it.value⟩])

/-- `Scan(ctx, &ScanRequest{StartKey, EndKey})`: the reply's pairs. -/
def scan (t : BTree) (startKey endKey : String) : List KVPair :=
  t.ascendGreaterOrEqual startKey (scanVisit endKey) []

/-- The pair a stored item is reported as. -/
def Item.toPair (it : Item) : KVPair := ⟨it.key, it.value⟩

theorem ascend_scanVisit (endKey : String) :
    ∀ (l : List Item) (acc : List KVPair),
      ascend (scanVisit endKey) l acc =
        acc ++ (l.takeWhile fun it => !goLt endKey it.key).map Item.toPair
  | [], acc => by simp [ascend]
  | x :: xs, acc => by
      by_cases h : goLt endKey x.key
      · simp [ascend, scanVisit, h]
      · simp [ascend, scanVisit, h, ascend_scanVisit endKey xs, Item.toPair]

/-- On an ascending list a predicate that, once false, stays false further
up is read as well by `takeWhile` as by `filter`. -/
theorem takeWhile_eq_filter {p : Item → Bool}
    (hp : ∀ a b, goLt a.key b.key → p a = false → p b = false) :
    ∀ {l : List Item}, Ascending l → l.takeWhile p = l.filter p
  | [], _ => rfl
  | x :: xs, hs => by
      cases hx : p x
      · simp only [List.takeWhile_cons, hx, List.filter_cons, Bool.false_eq_true, if_false]
        symm
        rw [List.filter_eq_nil_iff]
        intro y hy
        simp [hp x y (List.rel_of_pairwise_cons hs hy) hx]
      · simp [List.takeWhile_cons, hx, List.filter_cons,
          takeWhile_eq_filter hp (List.Pairwise.of_cons hs)]

/-- `Scan` reports, in tree order, exactly the items with
`startKey ≤ key ≤ endKey`. -/
theorem scan_eq_filter (t : BTree) (startKey endKey : String) :
    scan t startKey endKey =
      (t.items.filter fun it => !goLt it.key startKey && !goLt endKey it.key).map
        Item.toPair := by
  have hs : Ascending (t.items.filter fun it => !goLt it.key startKey) :=
    t.ascending.sublist (List.filter_sublist _)
  have hp : ∀ a b : Item, goLt a.key b.key →
      (!goLt endKey a.key) = false → (!goLt endKey b.key) = false := by
    intro a b hab ha
    simp only [Bool.not_eq_false'] at ha ⊢
    exact goLt_trans ha hab
  rw [scan, BTree.ascendGreaterOrEqual, ascend_scanVisit, List.nil_append,
    takeWhile_eq_filter hp hs, List.filter_filter]
  simp only [Bool.and_comm]

/-- A member of an ascending list is what a lookup of its key finds. -/
theorem findItem_of_mem {it : Item} :
    ∀ {l : List Item}, Ascending l → it ∈ l → findItem it.key l = some it
  | x :: xs, hs, h => by
      rw [findItem_cons]
      rcases List.mem_cons.mp h with rfl | h
      · simp
      · have hlt := List.rel_of_pairwise_cons hs h
        have hne : x.key ≠ it.key := fun e => by simp [e, goLt_irrefl] at hlt
        simp [hne, findItem_of_mem (List.Pairwise.of_cons hs) h]

/-- The items of a tree are the bindings of its map. -/
theorem mem_items_iff_toMap {t : BTree} {it : Item} :
    it ∈ t.items ↔ t.toMap it.key = some it.value := by
  constructor
  · intro h
    simp [BTree.toMap, BTree.get, findItem_of_mem t.ascending h]
  · intro h
    simp only [BTree.toMap, Option.map_eq_some'] at h
    obtain ⟨x, hx, hv⟩ := h
    have hk := BTree.get_key hx
    have : x = it := by cases x; cases it; simp_all
    exact this ▸ findItem_mem hx

/-- Two ascending item lists with the same members are equal: the order leaves
no choice. -/
theorem eq_of_ascending_of_mem_iff {l l' : List Item} (hs : Ascending l) (hs' : Ascending l')
    (hm : ∀ it, it ∈ l ↔ it ∈ l') : l = l' := by
  haveI : IsIrrefl Item fun a b => goLt a.key b.key := ⟨fun a => by simp [goLt_irrefl]⟩
  haveI : IsAntisymm Item fun a b => goLt a.key b.key :=
    ⟨fun a _ h1 h2 => absurd (goLt_trans h1 h2) (by simp [goLt_irrefl])⟩
  exact List.eq_of_perm_of_sorted ((List.perm_ext_iff_of_nodup hs.nodup hs'.nodup).2 hm) hs hs'

/-- A tree is fixed by the map it stands for. -/
theorem BTree.eq_of_toMap_eq {t t' : BTree} (h : t.toMap = t'.toMap) : t = t' := by
  have := eq_of_ascending_of_mem_iff t.ascending t'.ascending fun it => by
    rw [mem_items_iff_toMap, mem_items_iff_toMap, h]
  cases t; cases t'; simp_all

/-! ## What the reply holds -/

theorem mem_scan {t : BTree} {startKey endKey : String} {p : KVPair} :
    p ∈ scan t startKey endKey ↔
      t.toMap p.key = some p.value ∧ goLt p.key startKey = false ∧
        goLt endKey p.key = false := by
  rw [scan_eq_filter, List.mem_map]
  constructor
  · rintro ⟨it, hit, rfl⟩
    rw [List.mem_filter] at hit
    simpa [Item.toPair, mem_items_iff_toMap.mp hit.1] using hit.2
  · rintro ⟨hm, hs, he⟩
    exact ⟨⟨p.key, p.value⟩, List.mem_filter.mpr ⟨mem_items_iff_toMap.mpr hm, by simp [hs, he]⟩,
      rfl⟩

theorem scan_ascending (t : BTree) (startKey endKey : String) :
    (scan t startKey endKey).Pairwise fun a b => goLt a.key b.key := by
  rw [scan_eq_filter, List.pairwise_map]
  exact t.ascending.sublist (List.filter_sublist _)

theorem scan_eq_nil_of_lt {t : BTree} {startKey endKey : String}
    (h : goLt endKey startKey) : scan t startKey endKey = [] := by
  rw [List.eq_nil_iff_forall_not_mem]
  intro p hp
  obtain ⟨-, hs, he⟩ := mem_scan.mp hp
  have hne : p.key ≠ startKey := by rintro rfl; simp [h] at he
  rcases goLt_total hne with h' | h'
  · simp [h'] at hs
  · simp [goLt_trans h h'] at he

theorem scan_self {t : BTree} {k v : String} (h : t.toMap k = some v) :
    scan t k k = [⟨k, v⟩] := by
  have hkey : ∀ p ∈ scan t k k, p.key = k := fun p hp =>
    eq_of_not_goLt (mem_scan.mp hp).2.1 (mem_scan.mp hp).2.2
  have hin : (⟨k, v⟩ : KVPair) ∈ scan t k k := mem_scan.mpr ⟨h, goLt_irrefl k, goLt_irrefl k⟩
  have hasc := scan_ascending t k k
  match hl : scan t k k, hin, hasc with
  | [p], hin, _ => rw [List.mem_singleton.mp hin]
  | p :: q :: _, _, hasc =>
      have hpq := List.rel_of_pairwise_cons hasc (List.mem_cons_self q _)
      rw [hkey p (by simp [hl]), hkey q (by simp [hl]), goLt_irrefl] at hpq
      exact absurd hpq (by simp)

/-- `Scan` on a tree standing for a map `M`: a pair is in the reply exactly
when `M` binds its key to its value and `startKey ≤ key ≤ endKey` under Go's
byte-wise order; the keys strictly ascend, so each entry comes once; a range
with `startKey > endKey` is empty, and `Scan k k` of a stored `k` is its one
pair. -/
theorem scan_range (t : BTree) :
    (∀ (startKey endKey : String) (p : KVPair), p ∈ scan t startKey endKey ↔
        t.toMap p.key = some p.value ∧ goLt p.key startKey = false ∧
          goLt endKey p.key = false) ∧
    (∀ startKey endKey : String,
        (scan t startKey endKey).Pairwise fun a b => goLt a.key b.key) ∧
    (∀ startKey endKey : String, goLt endKey startKey → scan t startKey endKey = []) ∧
    (∀ k v : String, t.toMap k = some v → scan t k k = [⟨k, v⟩]) :=
  ⟨fun _ _ _ => mem_scan, scan_ascending t, fun _ _ => scan_eq_nil_of_lt,
    fun _ _ => scan_self⟩

end KVStore
