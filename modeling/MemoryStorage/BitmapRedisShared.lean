import MemoryStorage.BitmapRedisSystem

/-!
# Storages sharing one Redis

`NewBimapRedisReplicator(redisClient, forStorage)` is given the client it writes through, and each
storage is given its own `ReplicationKey`. So several storages, each with its replicator, can share
one Redis, and their calls interleave in any order.

* While their replication keys differ, the storages do not interfere. Take any interleaving that
  does not panic. Each storage answers its own calls, and ends with the same storage and the same
  value under its key, as it would alone with its own calls and the same answers from Redis
  (`SharedRedis.run_isolated`).
-/

namespace MemoryStorage

/-- Storages whose replicators write through one Redis client: the keyspace, and each storage with
its replicator's `forStorage`. -/
structure SharedRedis (β : Type) where
  redis : RedisKeyspace β
  storages : Nat → RoaringBitmapStorage
  names : Nat → String

/-- The entries of a list of tagged entries that belong to `i`, in order. -/
def select {α : Type} (i : Nat) (l : List (Nat × α)) : List α :=
  l.filterMap fun c => if c.1 = i then some c.2 else none

@[simp] theorem select_nil {α : Type} (i : Nat) : select i ([] : List (Nat × α)) = [] := rfl

theorem select_cons {α : Type} (i j : Nat) (a : α) (l : List (Nat × α)) :
    select i ((j, a) :: l) = if j = i then a :: select i l else select i l := by
  by_cases h : j = i <;> simp [select, h]

namespace SharedRedis
variable {β : Type} (codec : BitmapCodec β)

/-- Storage `i` with its replicator. -/
def system (w : SharedRedis β) (i : Nat) : BitmapRedisSystem β :=
  ⟨w.storages i, ⟨w.redis, w.names i⟩⟩

/-- A call on storage `i`; `.error` is a panic. -/
def exec (w : SharedRedis β) (i : Nat) (o : TimedOp) : Except String (SharedRedis β × BitmapReply) :=
  ((w.system i).exec codec o.now o.err o.op).map fun res =>
    ({ w with redis := res.1.replicator.redis,
              storages := Function.update w.storages i res.1.storage }, res.2)

/-- Calls on the storages, in the order they reach Redis: the storages and Redis after them and the
answer to each call, or the first panic. -/
def run (w : SharedRedis β) :
    List (Nat × TimedOp) → Except String (SharedRedis β × List (Nat × BitmapReply))
  | [] => .ok (w, [])
  | (i, o) :: cs => do
    let (w', r) ← w.exec codec i o
    let (w'', rs) ← run w' cs
    return (w'', (i, r) :: rs)

variable {codec} {w w' : SharedRedis β} {i j : Nat} {o : TimedOp}

theorem run_cons_eq_ok {cs : List (Nat × TimedOp)} {res : SharedRedis β × List (Nat × BitmapReply)}
    (h : w.run codec ((j, o) :: cs) = .ok res) :
    ∃ w' r res', w.exec codec j o = .ok (w', r) ∧ w'.run codec cs = .ok res' ∧
      res = (res'.1, (j, r) :: res'.2) := by
  simp only [run, bind, Except.bind, pure, Except.pure] at h
  cases hx : w.exec codec j o with
  | error m => rw [hx] at h; cases h
  | ok p =>
    rw [hx] at h
    dsimp only at h
    cases hr : run codec p.1 cs with
    | error m => rw [hr] at h; cases h
    | ok res' => rw [hr] at h; cases h; exact ⟨p.1, p.2, res', rfl, hr, rfl⟩

/-- A call on storage `j` is its system's call, and leaves every storage's configuration, the
names, and what Redis holds under every other key as they were. -/
theorem exec_cases {r : BitmapReply} (h : w.exec codec j o = .ok (w', r)) :
    ∃ sys', (w.system j).exec codec o.now o.err o.op = .ok (sys', r) ∧
      w' = { w with redis := sys'.replicator.redis,
                    storages := Function.update w.storages j sys'.storage } ∧
      sys'.replicator.forStorage = w.names j ∧
      (∀ k, (w'.storages k).configs = (w.storages k).configs) ∧
      ∀ key, key ≠ (w.storages j).configs.replicationKey → w'.redis key = w.redis key := by
  unfold exec at h
  cases hx : (w.system j).exec codec o.now o.err o.op with
  | error m => rw [hx] at h; cases h
  | ok p =>
    rw [hx] at h
    simp only [Except.map, Except.ok.injEq, Prod.mk.injEq] at h
    obtain ⟨rfl, rfl⟩ := h
    obtain ⟨hc, hf, hk⟩ := BitmapRedisSystem.exec_frame hx
    refine ⟨p.1, rfl, rfl, hf, fun k => ?_, fun key hkey => (hk key).resolve_right (hkey ·.1)⟩
    by_cases hkj : k = j
    · subst hkj; simpa using hc
    · simp [Function.update_noteq hkj]

/-- Storages with different replication keys do not interfere: in any interleaving of calls that
does not panic, storage `i` answers its own calls, and ends with the storage and the value under
its key, as it would alone with its own calls and the same answers from Redis. -/
theorem run_isolated (w : SharedRedis β) (i : Nat) (cs : List (Nat × TimedOp))
    (hkeys : ∀ c ∈ cs, c.1 ≠ i →
      (w.storages c.1).configs.replicationKey ≠ (w.storages i).configs.replicationKey)
    {res : SharedRedis β × List (Nat × BitmapReply)} (hrun : w.run codec cs = .ok res) :
    ((w.system i).run codec (select i cs)).map
        (fun p => (p.1.view (w.storages i).configs.replicationKey, p.2)) =
      .ok ((res.1.system i).view (w.storages i).configs.replicationKey, select i res.2) := by
  induction cs generalizing w res with
  | nil =>
    simp only [run, Except.ok.injEq] at hrun
    subst hrun
    rfl
  | cons c cs ih =>
    obtain ⟨j, o⟩ := c
    obtain ⟨w', r, res', hx, hrun', rfl⟩ := run_cons_eq_ok hrun
    obtain ⟨sys', hsys, hw, hf, hconf, hredis⟩ := exec_cases hx
    have ih' := ih w' (fun c hc hci => by
      rw [hconf, hconf]; exact hkeys c (List.mem_cons_of_mem _ hc) hci) hrun'
    rw [hconf] at ih'
    rw [select_cons, select_cons]
    by_cases hji : j = i
    · subst hji
      have hsys' : w'.system j = sys' := by
        obtain ⟨s, r'⟩ := sys'
        simp only [hw, system, Function.update_same]
        rw [← hf]
      simp only [if_true]
      rw [BitmapRedisSystem.run_cons_of_ok hsys, map_replies_cons, ← hsys', ih']
      rfl
    · simp only [hji, if_false]
      have hview : (w.system i).view (w.storages i).configs.replicationKey =
          (w'.system i).view (w.storages i).configs.replicationKey := by
        simp only [BitmapRedisSystem.view, system, hw, Function.update_noteq (Ne.symm hji),
          Prod.mk.injEq, true_and]
        have hk := hredis _ (Ne.symm (hkeys _ (List.mem_cons_self _ _) hji))
        rw [hw] at hk
        exact hk.symm
      rw [BitmapRedisSystem.run_view_congr (select i cs) (by rw [system, hconf]) hview]
      exact ih'

/-- Two storages, `a` and `b`, with their own replication keys and a Redis holding nothing. -/
def twoStorages : SharedRedis Nat :=
  ⟨fun _ => none,
    fun n => if n = 0 then ⟨⟨"a", "a_key", 60⟩, ∅, ⟨none, 1⟩⟩ else ⟨⟨"b", "b_key", 60⟩, ∅, ⟨none, 1⟩⟩,
    fun n => if n = 0 then "a" else "b"⟩

/-- Their calls, interleaved: both replicate, `a` clears and recovers, `b`'s `Recover` fails. -/
def twoCalls : List (Nat × TimedOp) :=
  [(0, ⟨0, none, .upsertMany [1, 2]⟩), (1, ⟨0, none, .upsertMany [3]⟩), (0, ⟨1, none, .replicate⟩),
    (1, ⟨1, none, .replicate⟩), (0, ⟨2, none, .clear⟩), (1, ⟨2, some "i/o timeout", .recover⟩),
    (0, ⟨3, none, .recover⟩)]

theorem run_isolated_two :
    (∀ c ∈ twoCalls, c.1 ≠ 0 → (twoStorages.storages c.1).configs.replicationKey ≠
      (twoStorages.storages 0).configs.replicationKey) ∧
    ∃ res, twoStorages.run sortedCodec twoCalls = .ok res ∧
      ((twoStorages.system 0).run sortedCodec (select 0 twoCalls)).map
          (fun p => (p.1.view (twoStorages.storages 0).configs.replicationKey, p.2)) =
        .ok ((res.1.system 0).view (twoStorages.storages 0).configs.replicationKey,
          select 0 res.2) :=
  have hkeys : ∀ c ∈ twoCalls, c.1 ≠ 0 → (twoStorages.storages c.1).configs.replicationKey ≠
      (twoStorages.storages 0).configs.replicationKey := by decide
  have hrun : twoStorages.run sortedCodec twoCalls = .ok _ := rfl
  ⟨hkeys, _, hrun, run_isolated twoStorages 0 twoCalls hkeys hrun⟩

end SharedRedis

end MemoryStorage
