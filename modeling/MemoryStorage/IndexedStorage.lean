import MemoryStorage.OrderedIndex

/-!
# `BTreeIndexedStorage`: an append-only value log indexed by a B-tree

`Add` appends the value and indexes its key at the new position, unless the key is indexed
already; `Delete` unindexes the key, clears its slot, counts a tombstone and spawns
`CompactIncremental` once the tombstone ratio passes the threshold; `CompactIncremental` copies
the live values of the first `batchSize` index entries, in key order, into a fresh log and index,
and installs them whether or not the scan reached the end.

Each call holds the mutex for its whole effect, so it is one step of `Sys.step`. A compaction
spawned by `Delete` (`go s.CompactIncremental()`) is pending in `Sys.pending` until it takes its
turn, at any later point. A call that panics (an out-of-range index into `storage`, or a `btree`
degree below 2) returns `none`.
-/

namespace MemoryStorage

/-- `entry`: a key and the position of its value in `storage`. -/
structure Entry (K : Type*) where
  k : K
  pos : Nat
deriving DecidableEq, Repr

/-- `BTreeIndexedStorage`. -/
structure BTreeIndexedStorage (K : Type*) [LinearOrder K] where
  tree : BTree (Entry.k (K := K))
  storage : List Slice
  tombstones : Int
  threshold : Float
  degree : Int
  batchSize : Int

namespace BTreeIndexedStorage
variable {K : Type*} [LinearOrder K]

/-- `NewBTreeIndexedStorage(degree, capacity, threshold, batchSize)`: `btree.New` panics for a
degree below 2 and `make` for a negative capacity; the capacity changes nothing else. -/
def newBTreeIndexedStorage (degree capacity : Int) (threshold : Float) (batchSize : Int) :
    Option (BTreeIndexedStorage K) :=
  if degree ≤ 1 ∨ capacity < 0 then none
  else some ⟨BTree.empty _, [], 0, threshold, degree, batchSize⟩

/-- `pos := len(storage); storage = append(storage, value); tree.ReplaceOrInsert(&entry{k, pos})`:
the three lines `Add` and `CompactIncremental`'s callback share. -/
def appendEntry (tree : BTree (Entry.k (K := K))) (storage : List Slice) (k : K) (value : Slice) :
    BTree (Entry.k (K := K)) × List Slice :=
  ((tree.replaceOrInsert ⟨k, storage.length⟩).1, storage ++ [value])

/-- `Add(index, value)`. -/
def add (s : BTreeIndexedStorage K) (index : K) (value : Slice) : BTreeIndexedStorage K :=
  match s.tree.get index with
  | some _ => s
  | none =>
    let r := appendEntry s.tree s.storage index value
    { s with tree := r.1, storage := r.2 }

/-- `Get(index)`. -/
def get (s : BTreeIndexedStorage K) (index : K) : Option (Slice × Bool) :=
  match s.tree.get index with
  | none => some (none, false)
  | some e => s.storage[e.pos]?.map (·, true)

/-- `float64(s.tombstones)/float64(len(s.storage)) > s.threshold`. -/
def overThreshold (tombstones : Int) (len : Nat) (threshold : Float) : Bool :=
  threshold < Float.ofInt tombstones / Float.ofNat len

/-- `Delete(index)`: the new state, and whether it spawned `go s.CompactIncremental()`. -/
def delete (s : BTreeIndexedStorage K) (index : K) : Option (BTreeIndexedStorage K × Bool) :=
  match s.tree.delete index with
  | (tree, none) => some ({ s with tree }, false)
  | (tree, some e) =>
    if e.pos < s.storage.length then
      some ({ s with tree, storage := s.storage.set e.pos none, tombstones := s.tombstones + 1 },
        overThreshold (s.tombstones + 1) s.storage.length s.threshold)
    else none

/-- `Len()`. -/
def len (s : BTreeIndexedStorage K) : Nat := s.tree.len

/-- The variables `CompactIncremental`'s `Ascend` callback updates. -/
structure Compaction (K : Type*) [LinearOrder K] where
  newStorage : List Slice
  newTree : BTree (Entry.k (K := K))
  count : Nat

/-- The callback's `if val != nil { ... }`: a live value goes to the new log and index. -/
def Compaction.keep (c : Compaction K) (k : K) (val : Slice) : Compaction K :=
  if val.isSome then
    let r := appendEntry c.newTree c.newStorage k val
    { c with newTree := r.1, newStorage := r.2 }
  else c

/-- One call of `CompactIncremental`'s callback on the entry `e`; `none` once `s.storage[e.pos]`
has panicked. -/
def compactVisit (storage : List Slice) (batchSize : Int) :
    Option (Compaction K) → Entry K → Option (Compaction K) × Bool
  | none, _ => (none, false)
  | some c, e =>
    match storage[e.pos]? with
    | none => (none, false)
    | some val =>
      let c := c.keep e.k val
      (some { c with count := c.count + 1 }, !(0 < batchSize ∧ batchSize ≤ c.count + 1))

/-- `CompactIncremental()`. Both branches of its last `if` install what the scan built. -/
def compactIncremental (s : BTreeIndexedStorage K) : Option (BTreeIndexedStorage K) :=
  if s.degree ≤ 1 then none else
  match s.tree.ascend (compactVisit s.storage s.batchSize) (some ⟨[], BTree.empty _, 0⟩) with
  | none => none
  | some c =>
    if (c.count : Int) < s.batchSize ∨ s.batchSize = 0 then
      some { s with storage := c.newStorage, tree := c.newTree, tombstones := 0 }
    else
      some { s with storage := c.newStorage, tree := c.newTree, tombstones := 0 }

/-- The store together with the compactions `Delete` spawned that have not run yet. -/
structure Sys (K : Type*) [LinearOrder K] where
  store : BTreeIndexedStorage K
  pending : Nat

/-- The calls of a run that change the state; `Get` and `Len` only read it. -/
inductive Op (K : Type*)
  | add (k : K) (v : Slice)
  | delete (k : K)
  | compactIncremental
  | spawnedCompaction

/-- One atomic step. `none` when the call panics, or when no spawned compaction is pending. -/
def Sys.step (σ : Sys K) : Op K → Option (Sys K)
  | .add k v => some ⟨σ.store.add k v, σ.pending⟩
  | .delete k => (σ.store.delete k).map fun r => ⟨r.1, σ.pending + if r.2 then 1 else 0⟩
  | .compactIncremental => σ.store.compactIncremental.map (⟨·, σ.pending⟩)
  | .spawnedCompaction =>
    if σ.pending = 0 then none else σ.store.compactIncremental.map (⟨·, σ.pending - 1⟩)

/-- The states some run reaches from a freshly built store. -/
inductive Reachable : Sys K → Prop
  | init {degree capacity : Int} {threshold : Float} {batchSize : Int} {s : BTreeIndexedStorage K} :
      newBTreeIndexedStorage degree capacity threshold batchSize = some s → Reachable ⟨s, 0⟩
  | step {σ σ' : Sys K} (op : Op K) : Reachable σ → σ.step op = some σ' → Reachable σ'

/-- The state after the calls `ops`, in order. -/
def Sys.run (σ : Sys K) (ops : List (Op K)) : Option (Sys K) := ops.foldlM Sys.step σ

end BTreeIndexedStorage

end MemoryStorage
