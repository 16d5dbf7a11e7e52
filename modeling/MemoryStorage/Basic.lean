import Mathlib.Data.List.Lex
import Mathlib.Order.Fin.Basic

/-!
# Go values the stores handle

Byte strings and fixed-width keys, `[]byte` values that may be `nil`, and the part of `time` that
the TTL index reads. `bytes.Compare` orders byte strings lexicographically with a proper prefix
first, which is the order Mathlib puts on `List`; every `Less` of the repository is that order on
keys.
-/

namespace MemoryStorage

/-- A Go `byte`. -/
abbrev Byte := Fin 256

/-- A byte string (`[]byte` used as a key), ordered as `bytes.Compare` orders it. Go tells a nil key
from an empty one nowhere a key is read: `len(key) == 0` and `bytes.Compare` treat them alike. -/
def Bytes := List Byte

instance : LinearOrder Bytes := inferInstanceAs (LinearOrder (List Byte))

instance : Repr Bytes := inferInstanceAs (Repr (List Byte))

/-- An 8-byte array key (`key [8]byte`, `byte8 [8]byte`), compared by `bytes.Compare` on `k[:]`. -/
def Key8 := {k : Bytes // List.length k = 8}

instance : LinearOrder Key8 := inferInstanceAs (LinearOrder {k : Bytes // List.length k = 8})

instance : DecidableEq Key8 := inferInstanceAs (DecidableEq {k : Bytes // List.length k = 8})

/-- A `[]byte` value as a store keeps it: `none` is the nil slice, which differs from an empty one. -/
abbrev Slice := Option Bytes

/-- A `time.Duration`: an `int64` count of nanoseconds. -/
abbrev Duration := BitVec 64

/-- A `time.Time` as nanoseconds since the Unix epoch. The monotonic reading and the location are
left out (no modelled code reads them), and so is the saturation of `Add` at the ends of the
representable range. -/
structure Time where
  unixNano : Int
deriving DecidableEq, Repr

/-- `t.Add(d)`. -/
def Time.add (t : Time) (d : Duration) : Time := ⟨t.unixNano + d.toInt⟩

/-- `t.Unix()`: whole seconds since the epoch, rounded down, also before the epoch. -/
def Time.unix (t : Time) : Int := t.unixNano / 1000000000

/-- `time.Unix(sec, 0)`. -/
def Time.ofUnix (sec : Int) : Time := ⟨sec * 1000000000⟩

@[simp] theorem Time.unix_ofUnix (sec : Int) : (Time.ofUnix sec).unix = sec := by
  simp [Time.unix, Time.ofUnix]

end MemoryStorage
