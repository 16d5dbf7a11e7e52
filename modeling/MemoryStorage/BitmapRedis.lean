import MemoryStorage.BitmapStorage

/-!
# `BitmapRedisReplicator`: the replica in Redis

`Replicate` stores the bitmap's bytes under the replication key with go-redis v8's
`Set(ctx, key, bytes, ttl)`, `Recover` reads them back with `Get`, clears the storage and reads
the bytes into it, and `DropReplicationKey` is `Del`. The model keeps the keyspace as each key's
value and expiry time on Redis's clock, in milliseconds. Any Redis request may instead answer an
error, and a request answered with an error is taken to have changed nothing.

go-redis sends a positive TTL as `PX` milliseconds, or as `EX` seconds when it is a whole number of
seconds, with a TTL under a millisecond sent as 1 ms; it sends `KeepTTL` (-1) as `KEEPTTL`, and
nothing for any other TTL (`setExpiration`). Redis expires a key once its clock has passed the
key's expiry time (`liveAt`). So a positive TTL keeps the value `max 1 (ttl / 1 ms)` milliseconds
past the write (`expiry_of_pos`), and whatever the TTL a value is live when it is written
(`liveAt_setValue`).

At any one instant, with Redis answering every call, the replicator is the fake one over the keys
that have not expired: `Replicate`, `Recover` and `DropReplicationKey` do the same to the storage
and the replica, and fail together, only the error of a missing key reads `redis: nil`
(`redis_refines_fake`).
-/

namespace MemoryStorage

/-- go-redis's `redis.Nil`, the error of `GET` on a key that is missing or has expired. -/
def redisNil : String := "redis: nil"

/-! ### go-redis's `Set` and Redis's expiry -/

/-- Redis's clock, `mstime()`, in milliseconds, at `now` in nanoseconds. -/
def mstime (now : Int) : Int := now / 1000000

/-- A key's value and expiry time seen at `now`: Redis expires a key once its clock has passed the
expiry time (`keyIsExpired`: `now > when`). -/
def liveAt {V : Type} (now : Int) : Option (V × Option Int) → Option V
  | some (v, some expiry) => if mstime now ≤ expiry then some v else none
  | some (v, none) => some v
  | none => none

/-- The expiry time of a key that has one and has not expired at `now`: what `KEEPTTL` keeps. -/
def keptExpiry {V : Type} (now : Int) : Option (V × Option Int) → Option Int
  | some (_, some expiry) => if mstime now ≤ expiry then some expiry else none
  | _ => none

/-- go-redis's `KeepTTL`. -/
def keepTTL : Int := -1

/-- go-redis's `usePrecise(dur)`: milliseconds, unless the duration is a whole number of
seconds. -/
def usePrecise (dur : Int) : Bool := dur < 1000000000 || dur.tmod 1000000000 != 0

/-- go-redis's `formatMs(ctx, dur)`: the duration in whole milliseconds, and 1 for a positive one
under a millisecond. -/
def formatMs (dur : Int) : Int := if 0 < dur ∧ dur < 1000000 then 1 else dur.tdiv 1000000

/-- go-redis's `formatSec(ctx, dur)`: the duration in whole seconds, and 1 for a positive one under
a second. -/
def formatSec (dur : Int) : Int := if 0 < dur ∧ dur < 1000000000 then 1 else dur.tdiv 1000000000

/-- The expiry argument go-redis v8's `Set` sends. -/
inductive SetExpiration
  | px (milliseconds : Int)
  | ex (seconds : Int)
  | keepTtl
  | noTtl

/-- What `Set(ctx, key, value, expiration)` sends for `expiration`. -/
def setExpiration (expiration : Duration) : SetExpiration :=
  if 0 < expiration.toInt then
    if usePrecise expiration.toInt then .px (formatMs expiration.toInt)
    else .ex (formatSec expiration.toInt)
  else if expiration.toInt = keepTTL then .keepTtl
  else .noTtl

/-- The expiry time `SET` gives the key at `now`, where `kept` is its live expiry time. -/
def SetExpiration.expiry (now : Int) (kept : Option Int) : SetExpiration → Option Int
  | .px milliseconds => some (mstime now + milliseconds)
  | .ex seconds => some (mstime now + seconds * 1000)
  | .keepTtl => kept
  | .noTtl => none

/-- What Redis holds under a key after `Set(ctx, key, v, expiration)` at `now`, where it held
`old`. -/
def setValue {V : Type} (now : Int) (expiration : Duration) (old : Option (V × Option Int)) (v : V) :
    Option (V × Option Int) :=
  some (v, (setExpiration expiration).expiry now (keptExpiry now old))

section Expiry
variable {V W : Type} {now : Int}

/-- A positive TTL keeps the key `max 1 (ttl / 1 ms)` milliseconds past the write, whether go-redis
sends it as `PX` or as `EX`. -/
theorem expiry_of_pos {expiration : Duration} (h : 0 < expiration.toInt) (kept : Option Int) :
    (setExpiration expiration).expiry now kept =
      some (mstime now + max 1 (expiration.toInt / 1000000)) := by
  have hn : 0 ≤ expiration.toInt := h.le
  simp only [setExpiration, if_pos h, usePrecise, formatMs, formatSec,
    Int.tdiv_eq_ediv hn (by decide : (0 : Int) ≤ 1000000),
    Int.tdiv_eq_ediv hn (by decide : (0 : Int) ≤ 1000000000),
    Int.tmod_eq_emod hn (by decide : (0 : Int) ≤ 1000000000)]
  split_ifs with hp <;>
    simp only [Bool.or_eq_true, decide_eq_true_eq, bne_iff_ne, ne_eq] at hp <;>
    simp only [SetExpiration.expiry, Option.some.injEq] <;> omega

/-- Whatever the TTL, a value is live at the instant it is written. -/
@[simp] theorem liveAt_setValue (expiration : Duration) (old : Option (V × Option Int)) (v : V) :
    liveAt now (setValue now expiration old v) = some v := by
  unfold setValue
  by_cases h : 0 < expiration.toInt
  · rw [expiry_of_pos h]
    simp only [liveAt, if_pos (show mstime now ≤ mstime now + max 1 (expiration.toInt / 1000000) by
      omega)]
  · simp only [setExpiration, h, if_false]
    split_ifs
    · rcases old with _ | ⟨_, _ | expiry⟩ <;> simp only [SetExpiration.expiry, keptExpiry, liveAt]
      split_ifs <;> simp only [liveAt, if_true, *]
    · rfl

@[simp] theorem liveAt_map (f : V → W) (x : Option (V × Option Int)) :
    liveAt now (x.map (Prod.map f id)) = (liveAt now x).map f := by
  rcases x with _ | ⟨v, _ | expiry⟩ <;> simp only [liveAt, Option.map, Prod.map, id]
  split_ifs <;> rfl

@[simp] theorem keptExpiry_map (f : V → W) (x : Option (V × Option Int)) :
    keptExpiry now (x.map (Prod.map f id)) = keptExpiry now x := by
  rcases x with _ | ⟨v, _ | expiry⟩ <;> rfl

theorem setValue_map (f : V → W) (expiration : Duration) (old : Option (V × Option Int)) (v : V) :
    (setValue now expiration old v).map (Prod.map f id) =
      setValue now expiration (old.map (Prod.map f id)) (f v) := by
  simp [setValue]

end Expiry

/-! ### The replicator -/

/-- The keyspace the replicator's client sees: each key's value, and its expiry time on Redis's
clock when it has one. -/
abbrev RedisKeyspace (β : Type) := String → Option (List β × Option Int)

/-- `BitmapRedisReplicator`: its client's keyspace and the storage it serves. -/
structure BitmapRedisReplicator (β : Type) where
  redis : RedisKeyspace β
  forStorage : String

namespace BitmapRedisReplicator
variable {β : Type} (codec : BitmapCodec β) (r : BitmapRedisReplicator β)

/-- `NewBimapRedisReplicator(redisClient, forStorage)`; `.error` is the panic on a nil client. -/
def newBimapRedisReplicator (redisClient : Option (RedisKeyspace β)) (forStorage : String) :
    Except String (BitmapRedisReplicator β) :=
  match redisClient with
  | none => .error "redis client must be not nil"
  | some c => .ok ⟨c, forStorage⟩

/-- The value of `key` at `now`, unless it is missing or has expired. -/
def live (now : Int) (key : String) : Option (List β) := liveAt now (r.redis key)

/-- `writeBytesToDump(ctx, versionKey, bytes, ttl)` at `now`, where Redis answers `err`. -/
def writeBytesToDump (now : Int) (err : Option String) (versionKey : String) (bytes : List β)
    (ttl : Duration) : BitmapRedisReplicator β × Option String :=
  match err with
  | some e => (r, some e)
  | none =>
    let stored := setValue now ttl (r.redis versionKey) bytes
    ({ r with redis := Function.update r.redis versionKey stored }, none)

/-- `readBytesFromDump(ctx, versionKey)` at `now`. go-redis's `Bytes()` never answers a nil slice
with a nil error, so its nil check never fires. -/
def readBytesFromDump (now : Int) (err : Option String) (versionKey : String) :
    Except String (List β) :=
  match err with
  | some e => .error e
  | none =>
    match r.live now versionKey with
    | some v => .ok v
    | none => .error redisNil

/-- The error of `Replicate` on an empty bitmap. -/
def emptyForReplicate : String := "[" ++ r.forStorage ++ "] bitmap is empty for replicate"

/-- `Replicate(ctx, storage, replicationKey, ttl)` at `now`, where Redis answers `err`. -/
def replicate (now : Int) (err : Option String) (storage : RoaringBitmapStorage)
    (replicationKey : String) (ttl : Duration) : BitmapRedisReplicator β × Option String :=
  match storage.getBytesFromBitmap codec with
  | none => (r, some r.emptyForReplicate)
  | some bitmapBytes => r.writeBytesToDump now err replicationKey bitmapBytes ttl

/-- `Recover(ctx, storage, versionKey)` at `now`: the storage afterwards, and the error. -/
def recover (now : Int) (err : Option String) (storage : RoaringBitmapStorage)
    (versionKey : String) : RoaringBitmapStorage × Option String :=
  match r.readBytesFromDump now err versionKey with
  | .error e => (storage, some e)
  | .ok bitmapBytesFromDump =>
    let res := storage.clear.readFromBuffer codec bitmapBytesFromDump
    (res.1, res.2.2)

/-- `DropReplicationKey(ctx, replicationKey)`: `DEL`, where Redis answers `err`. -/
def dropReplicationKey (err : Option String) (replicationKey : String) :
    BitmapRedisReplicator β × Option String :=
  match err with
  | some e => (r, some e)
  | none => ({ r with redis := Function.update r.redis replicationKey none }, none)

/-- The fake replicator holding what has not expired at `now`. -/
def toFake (now : Int) : BitmapFakeReplicator β := ⟨r.live now, r.forStorage⟩

section Live
variable {now : Int} {key k : String} {v : List β}

theorem live_update_ne (h : k ≠ key) (x : Option (List β × Option Int)) :
    ({ r with redis := Function.update r.redis key x } : BitmapRedisReplicator β).live now k =
      r.live now k := by
  simp [live, h]

theorem live_update_self (x : Option (List β × Option Int)) :
    ({ r with redis := Function.update r.redis key x } : BitmapRedisReplicator β).live now key =
      liveAt now x := by
  simp [live]

theorem live_eq_some (h : r.live now key = some v) : ∃ e, r.redis key = some (v, e) := by
  unfold live liveAt at h
  rcases hk : r.redis key with _ | ⟨v', _ | expiry⟩ <;> simp only [hk] at h
  · cases h
  · exact ⟨none, by rw [Option.some.inj h]⟩
  · split_ifs at h
    exact ⟨some expiry, by rw [Option.some.inj h]⟩

end Live

section Calls
variable {now : Int} {storage : RoaringBitmapStorage} {key : String}

/-- A write to one key, seen at `now`, is the fake replica with that key set to what is live. -/
theorem toFake_update {x : Option (List β × Option Int)} {y : Option (List β)}
    (hx : ({ r with redis := Function.update r.redis key x } : BitmapRedisReplicator β).live now
      key = y) :
    ({ r with redis := Function.update r.redis key x } : BitmapRedisReplicator β).toFake now =
      ⟨Function.update (r.live now) key y, r.forStorage⟩ := by
  simp only [toFake, BitmapFakeReplicator.mk.injEq, and_true]
  funext k
  by_cases hk : k = key
  · subst hk; rw [hx, Function.update_same]
  · rw [live_update_ne _ hk, Function.update_noteq hk]

/-- With Redis answering, `Replicate` does to the live keys what the fake replicator does, and
answers alike. -/
theorem replicate_toFake (now : Int) (storage : RoaringBitmapStorage) (key : String)
    (ttl : Duration) :
    Prod.map (toFake · now) id (r.replicate codec now none storage key ttl) =
      (r.toFake now).replicate codec storage key := by
  unfold replicate BitmapFakeReplicator.replicate
  cases storage.getBytesFromBitmap codec with
  | none => rfl
  | some bytes =>
    exact Prod.ext (toFake_update r (by rw [live_update_self, liveAt_setValue])) rfl

/-- With Redis answering and a non-empty value live under the key, `Recover` is the fake one's. -/
theorem recover_of_live {data : List β} (hl : r.live now key = some data) (hne : data ≠ []) :
    r.recover codec now none storage key = (r.toFake now).recover codec storage key := by
  simp [recover, readBytesFromDump, BitmapFakeReplicator.recover, BitmapFakeReplicator.readStore,
    toFake, hl, hne]

/-- A missing or expired key: `Recover` answers `redis: nil` and leaves the storage alone. -/
theorem recover_of_missing (hl : r.live now key = none) :
    r.recover codec now none storage key = (storage, some redisNil) := by
  simp [recover, readBytesFromDump, hl]

/-- With Redis answering, `DropReplicationKey` is the fake one's. -/
theorem dropReplicationKey_toFake (now : Int) (key : String) :
    Prod.map (toFake · now) id (r.dropReplicationKey none key) =
      ((r.toFake now).dropReplicationKey key, none) :=
  Prod.ext (toFake_update r (by simp [live, liveAt])) rfl

end Calls

end BitmapRedisReplicator

section Refinement
variable {β : Type} (codec : BitmapCodec β) (r : BitmapRedisReplicator β)

/-- At one instant, with Redis answering every call, the replicator does what the fake one over its
live keys does: `Replicate` and `DropReplicationKey` change the replica alike and answer alike, and
`Recover`, when the value under the key is not empty, leaves the same storage and fails exactly
when the fake one fails. -/
theorem redis_refines_fake (now : Int) (storage : RoaringBitmapStorage) (key : String)
    (ttl : Duration) (hne : ∀ data, r.live now key = some data → data ≠ []) :
    (r.replicate codec now none storage key ttl).1.toFake now =
        ((r.toFake now).replicate codec storage key).1 ∧
      (r.replicate codec now none storage key ttl).2 =
        ((r.toFake now).replicate codec storage key).2 ∧
      (r.recover codec now none storage key).1 = ((r.toFake now).recover codec storage key).1 ∧
      ((r.recover codec now none storage key).2 = none ↔
        ((r.toFake now).recover codec storage key).2 = none) ∧
      (r.dropReplicationKey none key).1.toFake now = (r.toFake now).dropReplicationKey key ∧
      (r.dropReplicationKey none key).2 = none := by
  have hrep := r.replicate_toFake codec now storage key ttl
  have hrec : (r.recover codec now none storage key).1 =
        ((r.toFake now).recover codec storage key).1 ∧
      ((r.recover codec now none storage key).2 = none ↔
        ((r.toFake now).recover codec storage key).2 = none) := by
    cases hl : r.live now key with
    | none =>
      rw [r.recover_of_missing codec hl]
      simp [BitmapFakeReplicator.recover, BitmapFakeReplicator.readStore,
        BitmapRedisReplicator.toFake, hl]
    | some data => rw [r.recover_of_live codec hl (hne data hl)]; exact ⟨rfl, Iff.rfl⟩
  exact ⟨congrArg Prod.fst hrep, congrArg Prod.snd hrep, hrec.1, hrec.2,
    congrArg Prod.fst (r.dropReplicationKey_toFake now key), rfl⟩

/-- A storage `ids` holding `1` and `2`, replicated under `k`. -/
def idsStorage : RoaringBitmapStorage := ⟨⟨"ids", "k", 0⟩, {1, 2}, ⟨none, 1⟩⟩

/-- A Redis holding `[3]`, with no expiry, under every key. -/
def heldRedis : BitmapRedisReplicator Nat := ⟨fun _ => some ([3], none), "fs"⟩

theorem redis_refines_fake_held :
    (∀ data, heldRedis.live 0 "k" = some data → data ≠ []) ∧
      (heldRedis.replicate sortedCodec 0 none idsStorage "k" 0).1.toFake 0 =
        ((heldRedis.toFake 0).replicate sortedCodec idsStorage "k").1 ∧
      (heldRedis.replicate sortedCodec 0 none idsStorage "k" 0).2 =
        ((heldRedis.toFake 0).replicate sortedCodec idsStorage "k").2 ∧
      (heldRedis.recover sortedCodec 0 none idsStorage "k").1 =
        ((heldRedis.toFake 0).recover sortedCodec idsStorage "k").1 ∧
      ((heldRedis.recover sortedCodec 0 none idsStorage "k").2 = none ↔
        ((heldRedis.toFake 0).recover sortedCodec idsStorage "k").2 = none) ∧
      (heldRedis.dropReplicationKey none "k").1.toFake 0 =
        (heldRedis.toFake 0).dropReplicationKey "k" ∧
      (heldRedis.dropReplicationKey none "k").2 = none :=
  have hne : ∀ data, heldRedis.live 0 "k" = some data → data ≠ [] := fun _ h => by cases h; simp
  ⟨hne, redis_refines_fake sortedCodec _ 0 idsStorage "k" 0 hne⟩

end Refinement

end MemoryStorage
