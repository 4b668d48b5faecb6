/-
# `KVStore.Index` — the ordered index: `github.com/google/btree` as its in-order items

All three servers keep their data in a `btree.BTree` of `item{key, value}`,
ordered by `item.Less`, Go's `<` on the keys.  The library is not part of the
repository; what the servers rely on is its contract, which the spec states as
the index of §4.C: point lookup, insert-or-replace returning the displaced
item, delete returning the removed item, and ascending iteration from a lower
bound until the visitor says stop.  The model is the tree's in-order item list,
strictly ascending by key (`BTree.ascending`, a field, so no unsorted tree can
be built); the node layout of `btree.New(8)` is invisible through that
contract and is not modelled.

What the index *is for* is a finite map, `BTree.toMap`.  Each operation is
given its effect on that map, which is all the servers' proofs ever use:

* `get_replaceOrInsert_fst` / `toMap_replaceOrInsert` — `ReplaceOrInsert`
  returns what `Get` would have, and updates the map at the key;
* `delete_fst` / `toMap_delete` — the same for `Delete`;
* `ascendGreaterOrEqual` is by definition the visit, in ascending order, of
  the items not below the pivot, stopping at the first `false`; what `Scan`
  collects with it is worked out in `KVStore.Scan` (`scan_eq_filter`).
-/
import KVStore.GoString

namespace KVStore

/-- `item`: a key and its value; `item.Less` compares the keys. -/
structure Item where
  key : String
  value : String
deriving DecidableEq, Repr

/-- Strictly ascending by key, under Go's `<`. -/
def Ascending (items : List Item) : Prop :=
  items.Pairwise fun a b => goLt a.key b.key

/-- Modelled from the spec: the index of §4.C, the `btree.BTree` the servers
hold, as its in-order sequence of items. -/
structure BTree where
  items : List Item
  ascending : Ascending items

/-! ## The list operations -/

/-- The item stored under `k`. -/
def findItem (k : String) (l : List Item) : Option Item := l.find? (·.key == k)

/-- Insert-or-replace into an ascending list, returning the item displaced. -/
def insertItem (it : Item) : List Item → Option Item × List Item
  | [] => (none, [it])
  | x :: xs =>
    if goLt it.key x.key then (none, it :: x :: xs)
    else if x.key = it.key then (some x, it :: xs)
    else ((insertItem it xs).1, x :: (insertItem it xs).2)

/-- Remove the item stored under `k`, returning it. -/
def deleteItem (k : String) : List Item → Option Item × List Item
  | [] => (none, [])
  | x :: xs =>
    if x.key = k then (some x, xs)
    else ((deleteItem k xs).1, x :: (deleteItem k xs).2)

/-- Visit items in order, threading the visitor's state, until it returns
`false`; the visit that returns `false` still takes effect. -/
def ascend {σ : Type} (iter : σ → Item → Bool × σ) : List Item → σ → σ
  | [], s => s
  | x :: xs, s => if (iter s x).1 then ascend iter xs (iter s x).2 else (iter s x).2

@[simp] theorem findItem_nil (k : String) : findItem k [] = none := rfl

theorem findItem_cons (k : String) (x : Item) (xs : List Item) :
    findItem k (x :: xs) = if x.key = k then some x else findItem k xs := by
  simp only [findItem, List.find?_cons]
  split <;> simp_all

theorem findItem_key {k : String} {l : List Item} {x : Item} (h : findItem k l = some x) :
    x.key = k := by
  simpa using List.find?_some h

theorem findItem_mem {k : String} {l : List Item} {x : Item} (h : findItem k l = some x) :
    x ∈ l :=
  List.mem_of_find?_eq_some h

/-- In an ascending list nothing below the head's key is stored. -/
theorem findItem_of_lt {k : String} {x : Item} {xs : List Item}
    (hs : Ascending (x :: xs)) (hk : goLt k x.key) : findItem k (x :: xs) = none := by
  rw [findItem, List.find?_eq_none]
  intro y hy hyk
  rw [beq_iff_eq] at hyk
  subst hyk
  rcases List.mem_cons.mp hy with rfl | hy
  · simp [goLt_irrefl] at hk
  · have := goLt_trans hk (List.rel_of_pairwise_cons hs hy)
    simp [goLt_irrefl] at this

theorem mem_insertItem {it y : Item} :
    ∀ {l : List Item}, y ∈ (insertItem it l).2 → y = it ∨ y ∈ l
  | [], h => by simpa [insertItem] using h
  | x :: xs, h => by
      unfold insertItem at h
      split_ifs at h
      · simpa using h
      · rcases List.mem_cons.mp h with h | h
        · exact .inl h
        · exact .inr (List.mem_cons_of_mem _ h)
      · rcases List.mem_cons.mp h with rfl | h
        · exact .inr (List.mem_cons_self _ _)
        · exact (mem_insertItem h).imp_right (List.mem_cons_of_mem _)

theorem insertItem_ascending (it : Item) :
    ∀ {l : List Item}, Ascending l → Ascending (insertItem it l).2
  | [], _ => List.pairwise_singleton _ _
  | x :: xs, hs => by
      have hxs : Ascending xs := List.Pairwise.of_cons hs
      unfold insertItem
      split_ifs with hlt heq
      · exact List.Pairwise.cons
          (fun y hy => (List.mem_cons.mp hy).elim (fun e => e ▸ hlt)
            (fun hy => goLt_trans hlt (List.rel_of_pairwise_cons hs hy))) hs
      · refine List.Pairwise.cons (fun y hy => ?_) hxs
        rw [← heq]
        exact List.rel_of_pairwise_cons hs hy
      · have hgt : goLt x.key it.key := by
          rcases goLt_total heq with h | h
          · exact h
          · simp_all
        refine List.Pairwise.cons (fun y hy => ?_) (insertItem_ascending it hxs)
        rcases mem_insertItem hy with rfl | hy
        · exact hgt
        · exact List.rel_of_pairwise_cons hs hy

/-- `ReplaceOrInsert` displaces exactly what was stored under the key. -/
theorem insertItem_fst (it : Item) :
    ∀ {l : List Item}, Ascending l → (insertItem it l).1 = findItem it.key l
  | [], _ => rfl
  | x :: xs, hs => by
      unfold insertItem
      split_ifs with hlt heq
      · exact (findItem_of_lt hs hlt).symm
      · simp [findItem_cons, heq]
      · simp [findItem_cons, heq, insertItem_fst it (List.Pairwise.of_cons hs)]

theorem findItem_insertItem (it : Item) (k : String) :
    ∀ l : List Item,
      findItem k (insertItem it l).2 = if it.key = k then some it else findItem k l
  | [] => by simp [insertItem, findItem_cons]
  | x :: xs => by
      unfold insertItem
      split_ifs with hlt heq hk <;>
        simp_all [findItem_cons, findItem_insertItem it k xs]

theorem deleteItem_fst (k : String) :
    ∀ l : List Item, (deleteItem k l).1 = findItem k l
  | [] => rfl
  | x :: xs => by
      unfold deleteItem
      split_ifs with h <;> simp [findItem_cons, h, deleteItem_fst k xs]

theorem deleteItem_sublist (k : String) :
    ∀ l : List Item, List.Sublist (deleteItem k l).2 l
  | [] => List.Sublist.slnil
  | x :: xs => by
      unfold deleteItem
      split_ifs
      · exact List.sublist_cons_self _ _
      · exact (deleteItem_sublist k xs).cons₂ x

/-- In an ascending list the head's key is not stored again. -/
theorem findItem_head_key {x : Item} {xs : List Item} (hs : Ascending (x :: xs)) :
    findItem x.key xs = none := by
  rw [findItem, List.find?_eq_none]
  intro y hy hyk
  rw [beq_iff_eq] at hyk
  have := List.rel_of_pairwise_cons hs hy
  simp [hyk, goLt_irrefl] at this

theorem findItem_deleteItem (k k' : String) :
    ∀ {l : List Item}, Ascending l →
      findItem k' (deleteItem k l).2 = if k = k' then none else findItem k' l
  | [], _ => by simp [deleteItem]
  | x :: xs, hs => by
      unfold deleteItem
      by_cases hx : x.key = k
      · subst hx
        by_cases hk : x.key = k'
        · subst hk
          simpa using findItem_head_key hs
        · simp [findItem_cons, hk]
      · have ih := findItem_deleteItem k k' (List.Pairwise.of_cons hs)
        simp only [hx, if_false, findItem_cons, ih]
        split_ifs <;> simp_all

/-! ## The tree -/

namespace BTree

/-- `btree.New(8)`: the empty tree. -/
def empty : BTree := ⟨[], List.Pairwise.nil⟩

/-- `Get(item{key: k})`. -/
def get (t : BTree) (k : String) : Option Item := findItem k t.items

/-- `ReplaceOrInsert(it)`: the displaced item, and the tree holding `it`. -/
def replaceOrInsert (t : BTree) (it : Item) : Option Item × BTree :=
  ((insertItem it t.items).1, ⟨(insertItem it t.items).2, insertItem_ascending it t.ascending⟩)

/-- `Delete(item{key: k})`: the removed item, and the tree without it. -/
def delete (t : BTree) (k : String) : Option Item × BTree :=
  ((deleteItem k t.items).1,
    ⟨(deleteItem k t.items).2, t.ascending.sublist (deleteItem_sublist k t.items)⟩)

/-- `AscendGreaterOrEqual(item{key: pivot}, iter)`: the visitor over every item
that is not `Less` than the pivot, in order, until it returns `false`. -/
def ascendGreaterOrEqual {σ : Type} (t : BTree) (pivot : String)
    (iter : σ → Item → Bool × σ) (s : σ) : σ :=
  ascend iter (t.items.filter fun it => !goLt it.key pivot) s

/-- The finite map a tree stands for. -/
def toMap (t : BTree) : String → Option String := fun k => (t.get k).map Item.value

@[simp] theorem toMap_empty : empty.toMap = fun _ => none := rfl

theorem get_key {t : BTree} {k : String} {x : Item} (h : t.get k = some x) : x.key = k :=
  findItem_key h

/-- `Get` returns the item whose value the map holds. -/
theorem get_eq_toMap (t : BTree) (k : String) :
    t.get k = (t.toMap k).map fun v => ⟨k, v⟩ := by
  cases h : t.get k with
  | none => simp [toMap, h]
  | some x =>
      obtain rfl := get_key h
      simp [toMap, h]

theorem get_replaceOrInsert_fst (t : BTree) (it : Item) :
    (t.replaceOrInsert it).1 = t.get it.key :=
  insertItem_fst it t.ascending

theorem toMap_replaceOrInsert (t : BTree) (it : Item) :
    (t.replaceOrInsert it).2.toMap = Function.update t.toMap it.key (some it.value) := by
  funext k
  simp only [toMap, get, replaceOrInsert, findItem_insertItem, Function.update]
  split_ifs with h1 h2 h2 <;> subst_vars <;> simp_all

theorem delete_fst (t : BTree) (k : String) : (t.delete k).1 = t.get k :=
  deleteItem_fst k t.items

theorem toMap_delete (t : BTree) (k : String) :
    (t.delete k).2.toMap = Function.update t.toMap k none := by
  funext k'
  simp only [toMap, get, delete, findItem_deleteItem k k' t.ascending, Function.update]
  split_ifs with h1 h2 h2 <;> subst_vars <;> simp_all

end BTree

end KVStore
