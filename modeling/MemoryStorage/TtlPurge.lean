import MemoryStorage.TtlKeys
import MemoryStorage.TtlItems
import Mathlib.Logic.Relation

/-!
# `PurgeExpiredAt` and `ListExpiredAt`

Run alone, the two calls of either version select the same records: the expired records of the
map in key order, the first `n` of them when `n > 0`
(`listExpiredAt_purgeExpiredAt_select_expired`).

A purge is not atomic. Its scan and its delete loop take the lock separately, so they are separate
steps of `PurgeStep`, and other callers' upserts may land between them. In the `Item` version an
`UpsertAt` whose argument is a record the tree already stores rewrites that record's timestamp
before it takes the lock, so that write may land inside the read-locked scan too, and the scan is
one step per record it visits (`TtlItems.PurgeRun.scanning_alone` shows those steps, run alone, are
the scan of `PurgeExpiredAt`).

The delete loop deletes by key whatever is stored under the key when it runs, so an upsert that
refreshes a scanned key before the loop is undone (`purge_deletes_refreshed_key`). What holds is
that every key the loop removes was collected by the scan, which saw it at or before the cutoff,
and is still stored so unless a write since the scan began named the key
(`purge_removes_scanned_unless_rewritten`). To say "since the scan began", `PurgeRun` records the
writers' steps since then (and, in the `[]byte` version, the tree the scan read): history variables
of the model, which the code does not keep.
-/

namespace MemoryStorage

open Relation

/-- A key present before a delete loop and absent after it was named by the loop. -/
theorem BTree.mem_of_deleteEach {K α : Type*} [LinearOrder K] {key : α → K} {t : BTree key}
    {keys : List K} {k : K} (hin : (t.get k).isSome)
    (hout : (BTree.deleteEach (t, 0) keys).1.get k = none) : k ∈ keys := by
  by_contra h
  rw [BTree.get_deleteEach, if_neg h] at hout
  simp [hout] at hin

/-! ### The `[]byte` version -/

namespace TtlKeys

/-- The calls that may run between the two locked sections of a purge. -/
inductive Writer
  | upsertAt (key : Bytes) (ts : Time)
  | upsertManyAt (keys : List Bytes) (atTime : Time)

/-- The keys a writer's call writes. -/
def Writer.keys : Writer → List Bytes
  | .upsertAt key _ => [key]
  | .upsertManyAt keys _ => keys

/-- The tree after a writer's call. -/
def ByteKeyBTree.write (b : ByteKeyBTree) : Writer → ByteKeyBTree
  | .upsertAt key ts => (b.upsertAt key ts).1
  | .upsertManyAt keys atTime => (b.upsertManyAt keys atTime).1

theorem ByteKeyBTree.get_foldl_write_of_not_mem (b : ByteKeyBTree) (ws : List Writer) {k : Bytes}
    (h : k ∉ ws.flatMap Writer.keys) : (ws.foldl write b).tree.get k = b.tree.get k := by
  induction ws generalizing b with
  | nil => rfl
  | cons w ws ih =>
    rw [List.flatMap_cons, List.mem_append, not_or] at h
    rw [List.foldl_cons, ih _ h.2]
    cases w with
    | upsertAt key ts =>
      exact b.get_upsertAt_of_ne (fun e => h.1 (by simp [Writer.keys, e])) ts
    | upsertManyAt keys atTime => exact b.get_upsertManyAt_of_not_mem h.1 atTime

/-- Where a purge is: before its scan, between its two locked sections with the keys it
collected, or done with its count. -/
inductive PurgePhase
  | start
  | scanned (keysToDelete : List Bytes)
  | done (deleted : Nat)

/-- The tree and the purge in flight, with the tree its scan read and the writers' calls since. -/
structure PurgeRun where
  tree : ByteKeyBTree
  phase : PurgePhase
  atScan : ByteKeyBTree
  writers : List Writer

/-- One atomic step of `PurgeExpiredAt(now, ttl, maxToDelete)` with `ttl > 0`, or of a writer. Every
writer holds the write lock for its whole call, so none runs inside the read-locked scan. An empty
scan returns before the loop, which would change nothing. -/
inductive PurgeStep (now : Time) (ttl : Duration) (maxToDelete : Int) : PurgeRun → PurgeRun → Prop
  | write (w : Writer) {b bs : ByteKeyBTree} {p : PurgePhase} {ws : List Writer} :
      PurgeStep now ttl maxToDelete ⟨b, p, bs, ws⟩ ⟨b.write w, p, bs, ws ++ [w]⟩
  | scan {b bs : ByteKeyBTree} {ws : List Writer} : 0 < ttl.toInt →
      PurgeStep now ttl maxToDelete ⟨b, .start, bs, ws⟩
        ⟨b, .scanned (b.scanExpired (cutoffUnix now ttl) maxToDelete), b, []⟩
  | deleteLoop {b bs : ByteKeyBTree} {keys : List Bytes} {ws : List Writer} :
      PurgeStep now ttl maxToDelete ⟨b, .scanned keys, bs, ws⟩
        ⟨(b.purgeDelete keys).1, .done (b.purgeDelete keys).2, bs, ws⟩

namespace PurgeRun
variable {now : Time} {ttl : Duration} {n : Int}

/-- Between the two sections: the keys are what the scan read from `atScan`, and the tree is
`atScan` after the writers' calls since. -/
def Inv (now : Time) (ttl : Duration) (n : Int) (s : PurgeRun) : Prop :=
  ∀ keys, s.phase = .scanned keys →
    keys = s.atScan.scanExpired (cutoffUnix now ttl) n ∧
      s.tree = s.writers.foldl ByteKeyBTree.write s.atScan

theorem Inv.step {s s' : PurgeRun} (h : s.Inv now ttl n) (hs : PurgeStep now ttl n s s') :
    s'.Inv now ttl n := by
  cases hs with
  | write w =>
    intro keys hk
    obtain ⟨hkeys, hb⟩ := h keys hk
    exact ⟨hkeys, by rw [List.foldl_append, ← hb]; rfl⟩
  | scan _ => intro keys hk; cases hk; exact ⟨rfl, rfl⟩
  | deleteLoop => intro keys hk; cases hk

theorem inv_of_reachable {b₀ bs₀ : ByteKeyBTree} {ws₀ : List Writer} {s : PurgeRun}
    (h : ReflTransGen (PurgeStep now ttl n) ⟨b₀, .start, bs₀, ws₀⟩ s) : s.Inv now ttl n := by
  induction h with
  | refl => intro keys hk; cases hk
  | tail _ hs ih => exact ih.step hs

/-- The delete loop of a purge in any interleaving: each key it removes was scanned as expired,
and is still expired when removed unless a writer since the scan wrote it. -/
theorem removed_of_reachable {b₀ : ByteKeyBTree} {s : PurgeRun} {keys : List Bytes}
    (h : ReflTransGen (PurgeStep now ttl n) ⟨b₀, .start, b₀, []⟩ s) (hs : s.phase = .scanned keys) :
    keys = s.atScan.scanExpired (cutoffUnix now ttl) n ∧
      s.tree = s.writers.foldl ByteKeyBTree.write s.atScan ∧
      ∀ k, (s.tree.tree.get k).isSome → (s.tree.purgeDelete keys).1.tree.get k = none →
        (∃ it ∈ s.atScan.tree.items, it.keyBytes = k ∧ it.timestampUnixSeconds ≤ cutoffUnix now ttl) ∧
        (k ∉ s.writers.flatMap Writer.keys →
          ∃ it, s.tree.tree.get k = some it ∧ it.timestampUnixSeconds ≤ cutoffUnix now ttl) := by
  obtain ⟨hk, hb⟩ := inv_of_reachable h keys hs
  refine ⟨hk, hb, fun k hin hout => ?_⟩
  have hmem := BTree.mem_of_deleteEach hin hout
  rw [hk, ByteKeyBTree.scanExpired_eq, List.mem_map] at hmem
  obtain ⟨it, hit, rfl⟩ := hmem
  obtain ⟨hstored, hts⟩ := s.atScan.mem_expired hit
  refine ⟨⟨it, hstored, rfl, hts⟩, fun hw => ⟨it, ?_, hts⟩⟩
  rw [hb, ByteKeyBTree.get_foldl_write_of_not_mem _ _ hw]
  exact BTree.get_key hstored

end PurgeRun

end TtlKeys

/-! ### The `Item` version -/

namespace TtlItems

/-- The writers' steps that may run between the steps of a purge. -/
inductive Writer
  | upsertAt (item : Option Item) (ts : Time)
  | upsertManyAt (items : List (Option Item)) (atTime : Time)
  /-- The first line of `UpsertAt(item, ts)` when `item` is the record the tree stores under `key`
  (one `GetNodeItem` or `ListExpiredAt` returned): `item.SetExpirationTime(ts)` runs before
  `b.mu.Lock()` and rewrites the stored record in place. The locked rest of that call,
  `ReplaceOrInsert(item)`, is an `upsertAt` of the record as it is by then. -/
  | setExpirationTime (key : Bytes) (ts : Time)

/-- Whether the writer's step holds the write lock. -/
def Writer.locked : Writer → Bool
  | .setExpirationTime .. => false
  | _ => true

/-- The keys a writer's step writes. -/
def Writer.keys : Writer → List Bytes
  | .upsertAt item _ => item.toList.map Item.key
  | .upsertManyAt items _ => items.filterMap fun it => it.map Item.key
  | .setExpirationTime key _ => [key]

/-- `SetExpirationTime(ts)` on the record stored under `key`, in place. -/
def ByteKeyBTree.setStoredExpirationTime (b : ByteKeyBTree) (key : Bytes) (ts : Time) :
    ByteKeyBTree :=
  match b.tree.get key with
  | none => b
  | some it => ⟨(b.tree.replaceOrInsert (it.setExpirationTime ts)).1⟩

/-- The tree after a writer's step; `none` when it panics. -/
def ByteKeyBTree.write (b : ByteKeyBTree) : Writer → Option ByteKeyBTree
  | .upsertAt item ts => some (b.upsertAt item ts).1
  | .upsertManyAt items atTime => (b.upsertManyAt items atTime).map Prod.fst
  | .setExpirationTime key ts => some (b.setStoredExpirationTime key ts)

theorem ByteKeyBTree.get_setStoredExpirationTime_of_ne (b : ByteKeyBTree) {key k : Bytes}
    (h : key ≠ k) (ts : Time) : (b.setStoredExpirationTime key ts).tree.get k = b.tree.get k := by
  unfold setStoredExpirationTime
  split
  · rfl
  · rename_i it hit
    rw [BTree.get_replaceOrInsert, Item.key_setExpirationTime, (BTree.get_eq_some hit).2, if_neg h]

theorem ByteKeyBTree.get_write_of_not_mem {b b' : ByteKeyBTree} {w : Writer} {k : Bytes}
    (hw : b.write w = some b') (h : k ∉ w.keys) : b'.tree.get k = b.tree.get k := by
  cases w with
  | upsertAt item ts =>
    cases hw
    exact b.get_upsertAt_of_ne (fun it hit e => h (by simp [Writer.keys]; exact ⟨it, hit, e⟩)) ts
  | upsertManyAt items atTime =>
    obtain ⟨r, hr, rfl⟩ := Option.map_eq_some'.1 hw
    exact b.get_upsertManyAt_of_not_mem hr fun it hit e =>
      h (List.mem_filterMap.2 ⟨some it, hit, by simp [e]⟩)
  | setExpirationTime key ts =>
    cases hw
    exact b.get_setStoredExpirationTime_of_ne (fun e => h (by simp [Writer.keys, e])) ts

/-- Where a purge is: before its scan, inside the read-locked `Ascend` with the number of records
visited and the records collected, between its two locked sections, or done with its count. -/
inductive PurgePhase
  | start
  | scanning (visited : Nat) (itemsToDelete : List Item)
  | scanned (itemsToDelete : List Item)
  | done (deleted : Nat)

/-- Whether the purge holds the read lock. -/
def PurgePhase.reading : PurgePhase → Bool
  | .scanning .. => true
  | _ => false

/-- The records the purge holds. -/
def PurgePhase.collected : PurgePhase → List Item
  | .scanning _ items => items
  | .scanned items => items
  | _ => []

/-- The tree and the purge in flight, with the writers' steps since its scan began. -/
structure PurgeRun where
  tree : ByteKeyBTree
  phase : PurgePhase
  writers : List Writer

/-- One call of the scan's callback, on the record at position `visited` as it is now; the scan
ends after the last record, or when the callback returns false. -/
def ByteKeyBTree.scanVisit (b : ByteKeyBTree) (cutoff maxToDelete : Int) (visited : Nat)
    (itemsToDelete : List Item) : PurgePhase :=
  match b.tree.items[visited]? with
  | none => .scanned itemsToDelete
  | some it =>
    let r := expiredVisit Item.getExpirationTime id cutoff maxToDelete itemsToDelete it
    if r.2 then .scanning (visited + 1) r.1 else .scanned r.1

/-- One atomic step of `PurgeExpiredAt(now, ttl, maxToDelete)` with `ttl > 0`, or of a writer that
does not panic. A locked writer waits while the scan holds the read lock; the unlocked first line
of an `UpsertAt` does not. -/
inductive PurgeStep (now : Time) (ttl : Duration) (maxToDelete : Int) : PurgeRun → PurgeRun → Prop
  | write (w : Writer) {b b' : ByteKeyBTree} {p : PurgePhase} {ws : List Writer} :
      b.write w = some b' → (w.locked = true → p.reading = false) →
      PurgeStep now ttl maxToDelete ⟨b, p, ws⟩ ⟨b', p, ws ++ [w]⟩
  | scan {b : ByteKeyBTree} {ws : List Writer} : 0 < ttl.toInt →
      PurgeStep now ttl maxToDelete ⟨b, .start, ws⟩ ⟨b, .scanning 0 [], []⟩
  | visit {b : ByteKeyBTree} {visited : Nat} {items : List Item} {ws : List Writer} :
      PurgeStep now ttl maxToDelete ⟨b, .scanning visited items, ws⟩
        ⟨b, b.scanVisit (cutoffUnix now ttl) maxToDelete visited items, ws⟩
  | deleteLoop {b : ByteKeyBTree} {items : List Item} {ws : List Writer} :
      PurgeStep now ttl maxToDelete ⟨b, .scanned items, ws⟩
        ⟨(b.purgeDelete items).1, .done (b.purgeDelete items).2, ws⟩

theorem ByteKeyBTree.mem_collected_scanVisit (b : ByteKeyBTree) {cutoff n : Int} {visited : Nat}
    {items : List Item} {x : Item} (hx : x ∈ (b.scanVisit cutoff n visited items).collected) :
    x ∈ items ∨ (x ∈ b.tree.items ∧ x.getExpirationTime ≤ cutoff) := by
  unfold scanVisit at hx
  split at hx
  · exact .inl hx
  · rename_i it hit
    have hr : x ∈ (expiredVisit Item.getExpirationTime id cutoff n items it).1 := by
      dsimp only at hx; split at hx <;> exact hx
    unfold expiredVisit at hr
    split_ifs at hr with hts
    · rcases List.mem_append.1 hr with hr | hr
      · exact .inl hr
      · obtain rfl := List.mem_singleton.1 hr
        exact .inr ⟨List.getElem?_mem hit, hts⟩
    · exact .inl hr

namespace PurgeRun
variable {now : Time} {ttl : Duration} {n : Int}

/-- What the purge holds: records the scan saw at or before the cutoff, each still stored as seen
unless a writer since the scan began named its key. -/
def Inv (cutoff : Int) (s : PurgeRun) : Prop :=
  ∀ it ∈ s.phase.collected, it.getExpirationTime ≤ cutoff ∧
    (it.key ∉ s.writers.flatMap Writer.keys → s.tree.tree.get it.key = some it)

theorem Inv.step {s s' : PurgeRun} (h : s.Inv (cutoffUnix now ttl))
    (hs : PurgeStep now ttl n s s') : s'.Inv (cutoffUnix now ttl) := by
  cases hs with
  | write w hw _ =>
    intro it hit
    refine ⟨(h it hit).1, fun hk => ?_⟩
    rw [List.flatMap_append, List.mem_append, not_or, List.flatMap_singleton] at hk
    rw [ByteKeyBTree.get_write_of_not_mem hw hk.2]
    exact (h it hit).2 hk.1
  | scan _ => intro it hit; cases hit
  | visit =>
    intro it hit
    rcases ByteKeyBTree.mem_collected_scanVisit _ hit with hit | ⟨hstored, hts⟩
    · exact h it hit
    · exact ⟨hts, fun _ => BTree.get_key hstored⟩
  | deleteLoop => intro it hit; cases hit

theorem inv_of_reachable {b₀ : ByteKeyBTree} {ws₀ : List Writer} {s : PurgeRun}
    (h : ReflTransGen (PurgeStep now ttl n) ⟨b₀, .start, ws₀⟩ s) : s.Inv (cutoffUnix now ttl) := by
  induction h with
  | refl => intro it hit; cases hit
  | tail _ hs ih => exact ih.step hs

/-- The delete loop of a purge in any interleaving: each key it removes was collected by the scan,
which saw its record at or before the cutoff, and is still so when removed unless a writer since
the scan began wrote it. -/
theorem removed_of_reachable {b₀ : ByteKeyBTree} {s : PurgeRun} {items : List Item}
    (h : ReflTransGen (PurgeStep now ttl n) ⟨b₀, .start, []⟩ s) (hs : s.phase = .scanned items) :
    ∀ k, (s.tree.tree.get k).isSome → (s.tree.purgeDelete items).1.tree.get k = none →
      (∃ it ∈ items, it.key = k ∧ it.getExpirationTime ≤ cutoffUnix now ttl) ∧
      (k ∉ s.writers.flatMap Writer.keys →
        ∃ it, s.tree.tree.get k = some it ∧ it.getExpirationTime ≤ cutoffUnix now ttl) := by
  intro k hin hout
  have hinv := inv_of_reachable h
  rw [Inv, hs] at hinv
  obtain ⟨it, hit, rfl⟩ := List.mem_map.1 (BTree.mem_of_deleteEach hin hout)
  exact ⟨⟨it, hit, rfl, (hinv it hit).1⟩, fun hw => ⟨it, (hinv it hit).2 hw, (hinv it hit).1⟩⟩

/-- Run alone from the `visited`-th record, the scan's steps collect what `Ascend` with the same
callback collects from there. -/
theorem scanning_alone (b : ByteKeyBTree) (ws : List Writer) (visited : Nat) (items : List Item) :
    ReflTransGen (PurgeStep now ttl n) ⟨b, .scanning visited items, ws⟩
      ⟨b, .scanned (ascendList (expiredVisit Item.getExpirationTime id (cutoffUnix now ttl) n)
        items (b.tree.items.drop visited)), ws⟩ := by
  generalize hl : b.tree.items.drop visited = l
  have hv := List.getElem?_drop b.tree.items visited 0
  rw [hl, Nat.add_zero] at hv
  induction l generalizing visited items with
  | nil =>
    have hs : b.scanVisit (cutoffUnix now ttl) n visited items = .scanned items := by
      rw [ByteKeyBTree.scanVisit, ← hv]; rfl
    exact .single (hs ▸ .visit)
  | cons x xs ih =>
    have hxs : b.tree.items.drop (visited + 1) = xs := by rw [← List.tail_drop, hl]; rfl
    have hs : b.scanVisit (cutoffUnix now ttl) n visited items =
        let r := expiredVisit Item.getExpirationTime id (cutoffUnix now ttl) n items x
        if r.2 then .scanning (visited + 1) r.1 else .scanned r.1 := by
      rw [ByteKeyBTree.scanVisit, ← hv, List.getElem?_cons_zero]
    dsimp only at hs
    rw [ascendList]
    split_ifs at hs ⊢
    · have hv' := List.getElem?_drop b.tree.items (visited + 1) 0
      rw [hxs, Nat.add_zero] at hv'
      exact .head (hs ▸ .visit) (ih _ _ hxs hv')
    · exact .single (hs ▸ .visit)

/-- Run alone, a purge's steps do what `PurgeExpiredAt` does. -/
theorem alone (b : ByteKeyBTree) (ws : List Writer) (h : 0 < ttl.toInt) :
    ReflTransGen (PurgeStep now ttl n) ⟨b, .start, ws⟩
      ⟨(b.purgeExpiredAt now ttl n).1, .done (b.purgeExpiredAt now ttl n).2, []⟩ := by
  have hscan : ReflTransGen (PurgeStep now ttl n) ⟨b, .scanning 0 [], []⟩
      ⟨b, .scanned (b.scanExpired (cutoffUnix now ttl) n), []⟩ := scanning_alone b [] 0 []
  have hend : b.purgeDelete (b.scanExpired (cutoffUnix now ttl) n) = b.purgeExpiredAt now ttl n := by
    rw [ByteKeyBTree.purgeExpiredAt, if_neg (not_le.2 h)]
    dsimp only
    split_ifs with he
    · rw [List.length_eq_zero.1 he]; rfl
    · rfl
  rw [← hend]
  exact .head (.scan h) (hscan.tail .deleteLoop)

end PurgeRun

end TtlItems

/-! ### The two versions -/

/-- Run alone, `ListExpiredAt` and `PurgeExpiredAt` of either version select the expired records of
the map in key order, the first `n` of them when `n > 0`: the list returns them (their keys in the
`[]byte` version), and the purge removes exactly their keys, leaves every other item as it was and
returns their number. For `ttl <= 0` the list is empty and the purge changes nothing. -/
theorem listExpiredAt_purgeExpiredAt_select_expired :
    (∀ (b : TtlKeys.ByteKeyBTree) (now : Time) (ttl : Duration) (n : Int),
      let E := KeyMap.expired TtlKeys.NodeItem.timestampUnixSeconds b.toKeyMap (cutoffUnix now ttl) n
      (0 < ttl.toInt →
        b.listExpiredAt now ttl n = E.map TtlKeys.NodeItem.keyBytes ∧
        (b.purgeExpiredAt now ttl n).1.tree.items =
          b.tree.items.filter (fun it => it.keyBytes ∉ E.map TtlKeys.NodeItem.keyBytes) ∧
        (b.purgeExpiredAt now ttl n).2 = E.length) ∧
      (ttl.toInt ≤ 0 → b.listExpiredAt now ttl n = [] ∧ b.purgeExpiredAt now ttl n = (b, 0))) ∧
    (∀ (b : TtlItems.ByteKeyBTree) (now : Time) (ttl : Duration) (n : Int),
      let E := KeyMap.expired TtlItems.Item.getExpirationTime b.toKeyMap (cutoffUnix now ttl) n
      (0 < ttl.toInt →
        b.listExpiredAt now ttl n = E ∧
        (b.purgeExpiredAt now ttl n).1.tree.items =
          b.tree.items.filter (fun it => it.key ∉ E.map TtlItems.Item.key) ∧
        (b.purgeExpiredAt now ttl n).2 = E.length) ∧
      (ttl.toInt ≤ 0 → b.listExpiredAt now ttl n = [] ∧ b.purgeExpiredAt now ttl n = (b, 0))) := by
  refine ⟨fun b now ttl n => ⟨fun h => ?_, fun h => ?_⟩, fun b now ttl n => ⟨fun h => ?_, fun h => ?_⟩⟩
  · have hE := b.purgeExpiredAt_eq now ttl n
    simp only [TtlKeys.mapExpired, not_le.2 h, if_false] at hE
    exact ⟨by rw [b.listExpiredAt_eq, TtlKeys.mapExpired, if_neg (not_le.2 h)], hE.1,
      hE.2.trans (List.length_map _ _)⟩
  · exact ⟨if_pos h, if_pos h⟩
  · have hE := b.purgeExpiredAt_eq now ttl n
    simp only [TtlItems.mapExpired, not_le.2 h, if_false] at hE
    exact ⟨by rw [b.listExpiredAt_eq, TtlItems.mapExpired, if_neg (not_le.2 h)], hE⟩
  · exact ⟨if_pos h, if_pos h⟩

/-- A run of either version in which a purge's delete loop removes a key that an upsert refreshed
past the cutoff between the scan and the loop: with `now` at second 10 and a one-second `ttl`, the
cutoff is second 9, the key is scanned at second 0, rewritten at second 10, and removed. -/
theorem purge_deletes_refreshed_key :
    (∃ (s : TtlKeys.PurgeRun) (keys : List Bytes),
      ReflTransGen (TtlKeys.PurgeStep (Time.ofUnix 10) 1000000000 0)
        ⟨⟨BTree.empty _⟩, .start, ⟨BTree.empty _⟩, []⟩ s ∧ s.phase = .scanned keys ∧
      cutoffUnix (Time.ofUnix 10) 1000000000 = 9 ∧
      s.tree.tree.get [1] = some ⟨[1], 10⟩ ∧ (s.tree.purgeDelete keys).1.tree.get [1] = none) ∧
    (∃ (s : TtlItems.PurgeRun) (items : List TtlItems.Item),
      ReflTransGen (TtlItems.PurgeStep (Time.ofUnix 10) 1000000000 0)
        ⟨⟨BTree.empty _⟩, .start, []⟩ s ∧ s.phase = .scanned items ∧
      cutoffUnix (Time.ofUnix 10) 1000000000 = 9 ∧
      s.tree.tree.get [1] = some (.filterNodeItem [1] 10) ∧
      (s.tree.purgeDelete items).1.tree.get [1] = none) :=
  ⟨⟨_, _, .tail (.tail (.single (.write (.upsertAt [1] (Time.ofUnix 0)))) (.scan (by decide)))
      (.write (.upsertAt [1] (Time.ofUnix 10))), rfl, by decide, by decide, by decide⟩,
    ⟨_, _, .tail (.tail (.tail (.tail
      (.single (.write (.upsertAt (some (.filterNodeItem [1] 0)) (Time.ofUnix 0)) rfl fun _ => rfl))
      (.scan (by decide))) .visit) .visit)
      (.write (.upsertAt (some (.filterNodeItem [1] 0)) (Time.ofUnix 10)) rfl fun _ => rfl),
      rfl, by decide, by decide, by decide⟩⟩

/-- In every interleaving of a purge's steps with writers' steps, in either version, each key the
delete loop removes was collected by the scan, which saw its record at or before the cutoff, and at
the moment it is removed its stored timestamp is still at or before the cutoff unless a writer
since the scan began wrote that key. In the `[]byte` version the scan read one tree, and the loop
runs on that tree after exactly the writers' calls since. -/
theorem purge_removes_scanned_unless_rewritten :
    (∀ (now : Time) (ttl : Duration) (n : Int) (b₀ : TtlKeys.ByteKeyBTree) (s : TtlKeys.PurgeRun)
        (keys : List Bytes),
      ReflTransGen (TtlKeys.PurgeStep now ttl n) ⟨b₀, .start, b₀, []⟩ s → s.phase = .scanned keys →
      keys = s.atScan.scanExpired (cutoffUnix now ttl) n ∧
      s.tree = s.writers.foldl TtlKeys.ByteKeyBTree.write s.atScan ∧
      ∀ k, (s.tree.tree.get k).isSome → (s.tree.purgeDelete keys).1.tree.get k = none →
        (∃ it ∈ s.atScan.tree.items, it.keyBytes = k ∧ it.timestampUnixSeconds ≤ cutoffUnix now ttl) ∧
        (k ∉ s.writers.flatMap TtlKeys.Writer.keys →
          ∃ it, s.tree.tree.get k = some it ∧ it.timestampUnixSeconds ≤ cutoffUnix now ttl)) ∧
    (∀ (now : Time) (ttl : Duration) (n : Int) (b₀ : TtlItems.ByteKeyBTree) (s : TtlItems.PurgeRun)
        (items : List TtlItems.Item),
      ReflTransGen (TtlItems.PurgeStep now ttl n) ⟨b₀, .start, []⟩ s → s.phase = .scanned items →
      ∀ k, (s.tree.tree.get k).isSome → (s.tree.purgeDelete items).1.tree.get k = none →
        (∃ it ∈ items, it.key = k ∧ it.getExpirationTime ≤ cutoffUnix now ttl) ∧
        (k ∉ s.writers.flatMap TtlItems.Writer.keys →
          ∃ it, s.tree.tree.get k = some it ∧ it.getExpirationTime ≤ cutoffUnix now ttl)) :=
  ⟨fun _ _ _ _ _ _ h hs => TtlKeys.PurgeRun.removed_of_reachable h hs,
    fun _ _ _ _ _ _ h hs => TtlItems.PurgeRun.removed_of_reachable h hs⟩

end MemoryStorage
