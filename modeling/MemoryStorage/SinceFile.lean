import Mathlib.Data.Nat.Digits
import Mathlib.Data.BitVec

/-!
# The `since` file of the backup schedule

`RunBackupScheduleWithVersion` keeps the version to resume incremental backups from in a file.
`saveSince` writes `strconv.FormatUint(since, 10)` to `path + ".tmp"` and renames it over `path`.
`loadSince` reads the file back through `strings.TrimSpace` and `strconv.ParseUint(s, 10, 64)`,
and falls back to `0` (the next backup is a full one) when the file is missing, blank or not a
`uint64`.

`ParseUint`'s digit loop is modelled as the library writes it, with its `uint64` overflow checks
on `BitVec 64`. It accepts exactly the non-empty strings of decimal digits whose value is below
`2^64`, and returns that value (`parseUint_eq_ok_iff`), so `loadSince` reads back what `saveSince`
wrote (`loadSince_formatUint`). Each system call of `saveSince` is an effect on the files, and the
OS's answers come from `SaveEnv`. After any prefix of those effects, that is at any crash point,
`path` holds the old content or the new digits, never a partial write
(`loadSince_saveSince`).
-/

namespace MemoryStorage
namespace Sdk

/-! ### `strconv.ParseUint(s, 10, 64)` and `strconv.FormatUint(v, 10)` -/

/-- The `Err` of a `*strconv.NumError`. -/
inductive NumErr
  | errSyntax
  | errRange
deriving DecidableEq, Repr

/-- `maxVal := uint64(1)<<uint(bitSize) - 1` for `bitSize` 64. -/
def maxVal : BitVec 64 := (1 <<< 64) - 1

/-- `cutoff`, for base 10: the least `n` with `n * 10 > maxUint64`. -/
def cutoff : BitVec 64 := BitVec.ofNat 64 ((2 ^ 64 - 1) / 10 + 1)

/-- `lower(c)`: `c | ('x' - 'X')`. -/
def lower (c : Nat) : Nat := c ||| 32

/-- The value the `switch` in `ParseUint`'s loop gives a character; `none` is its `default`. -/
def digitValue (c : Char) : Option Nat :=
  if '0' ≤ c ∧ c ≤ '9' then some (c.toNat - '0'.toNat)
  else if 'a'.toNat ≤ lower c.toNat ∧ lower c.toNat ≤ 'z'.toNat then
    some (lower c.toNat - 'a'.toNat + 10)
  else none

/-- The loop of `ParseUint(s, 10, 64)` from the value `n` read so far: the value it returns and its
error, `(0, ErrSyntax)` at a character that is no decimal digit and `(maxVal, ErrRange)` when the
value would not fit. -/
def parseUintLoop (n : BitVec 64) : List Char → BitVec 64 × Option NumErr
  | [] => (n, none)
  | c :: cs =>
    match digitValue c with
    | none => (0, some .errSyntax)
    | some d =>
      if d ≥ 10 then (0, some .errSyntax)
      else if n ≥ cutoff then (maxVal, some .errRange)
      else
        let n := n * 10
        let n1 := n + BitVec.ofNat 64 d
        if n1 < n ∨ n1 > maxVal then (maxVal, some .errRange) else parseUintLoop n1 cs

/-- `strconv.ParseUint(s, 10, 64)`. -/
def parseUint (s : List Char) : BitVec 64 × Option NumErr :=
  if s = [] then (0, some .errSyntax) else parseUintLoop 0 s

/-- `strconv.FormatUint(v, 10)`: the decimal digits of `v`, most significant first. -/
def formatUint (v : BitVec 64) : List Char :=
  if v.toNat = 0 then ['0'] else (Nat.digits 10 v.toNat).reverse.map fun d => Char.ofNat (d + 48)

/-- The number a string of decimal digits denotes, read from the left onto `v`. -/
def decimalFrom (v : Nat) (s : List Char) : Nat := s.foldl (fun n c => 10 * n + (c.toNat - 48)) v

theorem isDigit_iff (c : Char) : c.isDigit ↔ 48 ≤ c.toNat ∧ c.toNat ≤ 57 := by
  simp [Char.isDigit, UInt32.le_def, BitVec.le_def, Char.toNat, UInt32.toNat]

theorem digitValue_of_isDigit {c : Char} (h : c.isDigit) : digitValue c = some (c.toNat - 48) := by
  rw [isDigit_iff] at h
  have h' : '0' ≤ c ∧ c ≤ '9' := by
    simpa [Char.le_def, UInt32.le_def, BitVec.le_def, Char.toNat, UInt32.toNat] using h
  rw [digitValue, if_pos h']
  rfl

theorem isDigit_of_digitValue {c : Char} {d : Nat} (h : digitValue c = some d) (hd : d < 10) :
    c.isDigit := by
  rw [digitValue] at h
  split_ifs at h with h₁ h₂
  · simpa [isDigit_iff, Char.le_def, UInt32.le_def, BitVec.le_def, Char.toNat, UInt32.toNat]
      using h₁
  · cases h; omega

theorem le_decimalFrom (v : Nat) (s : List Char) : v ≤ decimalFrom v s := by
  induction s generalizing v with
  | nil => exact le_rfl
  | cons c cs ih => exact le_trans (by omega) (ih (10 * v + (c.toNat - 48)))

theorem cutoff_toNat : cutoff.toNat = 1844674407370955162 := rfl

theorem maxVal_toNat : maxVal.toNat = 2 ^ 64 - 1 := rfl

/-- The loop reads on while it sees digits and the value fits, and fails otherwise. -/
theorem parseUintLoop_eq_ok_iff (n : BitVec 64) (s : List Char) (r : BitVec 64) :
    parseUintLoop n s = (r, none) ↔
      (∀ c ∈ s, c.isDigit) ∧ decimalFrom n.toNat s < 2 ^ 64 ∧ r.toNat = decimalFrom n.toNat s := by
  induction s generalizing n with
  | nil =>
    simp only [parseUintLoop, Prod.mk.injEq, and_true, List.not_mem_nil, false_implies,
      implies_true, decimalFrom, List.foldl_nil, n.isLt, true_and]
    exact ⟨fun h => h ▸ rfl, fun h => BitVec.eq_of_toNat_eq h.symm⟩
  | cons c cs ih =>
    have hstep : decimalFrom n.toNat (c :: cs) = decimalFrom (10 * n.toNat + (c.toNat - 48)) cs :=
      rfl
    by_cases hc : c.isDigit
    · have hd : c.toNat - 48 < 10 := by have := (isDigit_iff c).1 hc; omega
      simp only [parseUintLoop, digitValue_of_isDigit hc, if_neg (not_le.2 hd), hstep,
        List.forall_mem_cons, hc, true_and]
      have hle := le_decimalFrom (10 * n.toNat + (c.toNat - 48)) cs
      by_cases hn : n ≥ cutoff
      · simp only [if_pos hn, Prod.mk.injEq, reduceCtorEq, and_false, false_iff, not_and]
        rw [ge_iff_le, BitVec.le_def, cutoff_toNat] at hn
        intro _ h; omega
      · rw [ge_iff_le, BitVec.le_def, cutoff_toNat] at hn
        have h10 : (n * 10).toNat = 10 * n.toNat := by
          rw [BitVec.toNat_mul, show (10 : BitVec 64).toNat = 10 from rfl]; omega
        have hn1 : (n * 10 + BitVec.ofNat 64 (c.toNat - 48)).toNat =
            (10 * n.toNat + (c.toNat - 48)) % 2 ^ 64 := by
          rw [BitVec.toNat_add, h10, BitVec.toNat_ofNat,
            Nat.mod_eq_of_lt (by omega : c.toNat - 48 < 2 ^ 64)]
        simp only [if_neg (show ¬n ≥ cutoff by rw [ge_iff_le, BitVec.le_def, cutoff_toNat]; omega),
          BitVec.lt_def, hn1, h10, maxVal_toNat]
        by_cases hov : 10 * n.toNat + (c.toNat - 48) < 2 ^ 64
        · rw [Nat.mod_eq_of_lt hov] at hn1 ⊢
          rw [if_neg (by omega), ih, hn1]
        · rw [if_pos (by omega)]
          simp only [Prod.mk.injEq, reduceCtorEq, and_false, false_iff, not_and]
          intro _ h; omega
    · have hbad : parseUintLoop n (c :: cs) = (0, some .errSyntax) := by
        simp only [parseUintLoop]
        split
        · rfl
        · rename_i d hd
          exact if_pos (not_lt.1 fun hd' => hc (isDigit_of_digitValue hd hd'))
      simp [hbad, hc]

/-- `ParseUint(s, 10, 64)` succeeds exactly on the non-empty strings of decimal digits whose value
fits in 64 bits, and returns that value. -/
theorem parseUint_eq_ok_iff (s : List Char) (v : BitVec 64) :
    parseUint s = (v, none) ↔
      s ≠ [] ∧ (∀ c ∈ s, c.isDigit) ∧ decimalFrom 0 s < 2 ^ 64 ∧ v.toNat = decimalFrom 0 s := by
  unfold parseUint
  split_ifs with h
  · simp [h]
  · simpa [h] using parseUintLoop_eq_ok_iff 0 s v

/-- One past `maxUint64` is a range error, so `loadSince` falls back to a full backup. -/
example : parseUint "18446744073709551616".toList = (maxVal, some .errRange) := by decide

theorem toNat_digitChar {d : Nat} (h : d < 10) : (Char.ofNat (d + 48)).toNat = d + 48 := by
  have : ∀ d < 10, (Char.ofNat (d + 48)).toNat = d + 48 := by decide
  exact this d h

theorem foldr_digitChar {L : List Nat} (h : ∀ d ∈ L, d < 10) :
    L.foldr (fun d n => 10 * n + ((Char.ofNat (d + 48)).toNat - 48)) 0 = Nat.ofDigits 10 L := by
  induction L with
  | nil => rfl
  | cons d L ih =>
    rw [List.foldr_cons, ih fun e he => h e (List.mem_cons_of_mem _ he), Nat.ofDigits_cons,
      toNat_digitChar (h d (List.mem_cons_self _ _))]
    omega

theorem isDigit_of_mem_formatUint {v : BitVec 64} {c : Char} (h : c ∈ formatUint v) : c.isDigit := by
  unfold formatUint at h
  split_ifs at h
  · simp only [List.mem_singleton] at h; subst h; rfl
  · obtain ⟨d, hd, rfl⟩ := List.mem_map.1 h
    have hd10 : d < 10 := Nat.digits_lt_base (by norm_num) (List.mem_reverse.1 hd)
    rw [isDigit_iff, toNat_digitChar hd10]; omega

theorem decimalFrom_formatUint (v : BitVec 64) : decimalFrom 0 (formatUint v) = v.toNat := by
  unfold formatUint decimalFrom
  split_ifs with h
  · rw [h]; rfl
  · rw [List.foldl_map, List.foldl_reverse,
      foldr_digitChar fun d hd => Nat.digits_lt_base (by norm_num) hd, Nat.ofDigits_digits]

theorem formatUint_ne_nil (v : BitVec 64) : formatUint v ≠ [] := by
  unfold formatUint
  split_ifs with h
  · simp
  · simpa [Nat.digits_eq_nil_iff_eq_zero] using h

theorem parseUint_formatUint (v : BitVec 64) : parseUint (formatUint v) = (v, none) :=
  (parseUint_eq_ok_iff _ v).2 ⟨formatUint_ne_nil v, fun _ => isDigit_of_mem_formatUint,
    by rw [decimalFrom_formatUint]; exact v.isLt, (decimalFrom_formatUint v).symm⟩

/-! ### `loadSince` -/

/-- `unicode.IsSpace(r)`: in Latin-1 `'\t'`, `'\n'`, `'\v'`, `'\f'`, `'\r'`, `' '`, U+0085 and
U+00A0, and above it the other `White_Space` runes. -/
def isSpace (r : Char) : Bool :=
  if r.toNat ≤ 0xFF then [9, 10, 11, 12, 13, 32, 0x85, 0xA0].contains r.toNat
  else r.toNat = 0x1680 || (0x2000 ≤ r.toNat && r.toNat ≤ 0x200a) || r.toNat = 0x2028 ||
    r.toNat = 0x2029 || r.toNat = 0x202f || r.toNat = 0x205f || r.toNat = 0x3000

/-- `strings.TrimSpace(s)`: `s` without its leading and trailing white space. -/
def trimSpace (s : List Char) : List Char :=
  ((s.dropWhile isSpace).reverse.dropWhile isSpace).reverse

/-- `loadSince(path)` on the file's content, `none` when `os.ReadFile` fails: the `uint64` it
holds, or `0`. -/
def loadSince (file : Option (List Char)) : BitVec 64 :=
  match file with
  | none => 0
  | some b =>
    let s := trimSpace b
    if s = [] then 0
    else match parseUint s with
      | (v, none) => v
      | (_, some _) => 0

theorem isSpace_eq_false_of_isDigit {c : Char} (h : c.isDigit) : isSpace c = false := by
  rw [isDigit_iff] at h
  obtain ⟨n, hn⟩ : ∃ n, c.toNat = n := ⟨_, rfl⟩
  rw [isSpace, hn, if_pos (by omega)]
  rw [hn] at h
  obtain ⟨h₁, h₂⟩ := h
  interval_cases n <;> rfl

theorem dropWhile_of_forall {p : Char → Bool} {s : List Char} (h : ∀ c ∈ s, p c = false) :
    s.dropWhile p = s := by
  cases s with
  | nil => rfl
  | cons c cs => exact List.dropWhile_cons_of_neg (by simp [h c (List.mem_cons_self _ _)])

theorem trimSpace_of_forall {s : List Char} (h : ∀ c ∈ s, isSpace c = false) : trimSpace s = s := by
  rw [trimSpace, dropWhile_of_forall h,
    dropWhile_of_forall fun c hc => h c (List.mem_reverse.1 hc), List.reverse_reverse]

/-- `loadSince` reads back the digits `saveSince` writes. -/
theorem loadSince_formatUint (v : BitVec 64) : loadSince (some (formatUint v)) = v := by
  have htrim : trimSpace (formatUint v) = formatUint v :=
    trimSpace_of_forall fun _ hc => isSpace_eq_false_of_isDigit (isDigit_of_mem_formatUint hc)
  simp only [loadSince, htrim, formatUint_ne_nil, if_false, parseUint_formatUint]

/-- `loadSince` returns the number the file holds when, white space trimmed, it is a non-empty
string of decimal digits below `2^64`, and `0` otherwise. -/
theorem loadSince_eq (b : List Char) :
    loadSince (some b) =
      if trimSpace b ≠ [] ∧ (∀ c ∈ trimSpace b, c.isDigit) ∧ decimalFrom 0 (trimSpace b) < 2 ^ 64
      then BitVec.ofNat 64 (decimalFrom 0 (trimSpace b)) else 0 := by
  simp only [loadSince]
  by_cases hnil : trimSpace b = []
  · simp [hnil]
  rw [if_neg hnil]
  rcases hp : parseUint (trimSpace b) with ⟨v, _ | e⟩
  · obtain ⟨-, hd, hlt, hv⟩ := (parseUint_eq_ok_iff _ v).1 hp
    rw [if_pos ⟨hnil, hd, hlt⟩]
    exact BitVec.eq_of_toNat_eq (by rw [hv, BitVec.toNat_ofNat, Nat.mod_eq_of_lt hlt])
  · rw [if_neg]
    rintro ⟨-, hd, hlt⟩
    have := (parseUint_eq_ok_iff _ (BitVec.ofNat 64 (decimalFrom 0 (trimSpace b)))).2
      ⟨hnil, hd, hlt, by rw [BitVec.toNat_ofNat, Nat.mod_eq_of_lt hlt]⟩
    rw [hp] at this
    cases this

/-- A trailing newline is trimmed; a sign is not a digit. -/
example : loadSince (some "42\n".toList) = 42 ∧ loadSince (some "+42".toList) = 0 := by decide

/-! ### `saveSince` and its crash points -/

/-- The files `saveSince` and `loadSince` touch: each path's content, `none` when there is no such
file. Directories are left out. -/
abbrev Files := String → Option (List Char)

/-- The files after a sequence of effects. -/
def Files.run (fs : Files) (effects : List (Files → Files)) : Files :=
  effects.foldl (fun fs f => f fs) fs

/-- `name` now holds `data`: `os.OpenFile` with `O_CREATE|O_TRUNC` (`data` empty), or a
`WriteString` after it. -/
def writeFile (name : String) (data : List Char) (fs : Files) : Files :=
  Function.update fs name (some data)

/-- `os.Remove(name)`. -/
def removeFile (name : String) (fs : Files) : Files := Function.update fs name none

/-- `os.Rename(oldpath, newpath)`: `newpath` takes `oldpath`'s content and `oldpath` is gone. -/
def rename (oldpath newpath : String) (fs : Files) : Files :=
  Function.update (Function.update fs newpath (fs oldpath)) oldpath none

section Frame
variable {fs : Files} {name p : String} {data : List Char}

@[simp] theorem writeFile_self : writeFile name data fs name = some data := by simp [writeFile]

@[simp] theorem writeFile_of_ne (h : p ≠ name) : writeFile name data fs p = fs p := by
  simp [writeFile, h]

@[simp] theorem removeFile_of_ne (h : p ≠ name) : removeFile name fs p = fs p := by
  simp [removeFile, h]

@[simp] theorem rename_newpath (h : p ≠ name) : rename name p fs p = fs name := by
  simp [rename, h]

end Frame

theorem run_of_frame {p : String} {effects : List (Files → Files)}
    (h : ∀ f ∈ effects, ∀ fs, f fs p = fs p) (fs : Files) : fs.run effects p = fs p := by
  induction effects generalizing fs with
  | nil => rfl
  | cons f effects ih =>
    rw [Files.run, List.foldl_cons, ← Files.run, ih (fun g hg => h g (List.mem_cons_of_mem _ hg)),
      h f (List.mem_cons_self _ _)]

/-- What the OS answers the calls of one `saveSince`: which calls fail, and, for a failing
`WriteString`, how many bytes it got out. -/
structure SaveEnv where
  mkdirAllErr : Bool
  openFileErr : Bool
  writeErr : Option Nat
  closeErr : Bool
  removeErr : Bool
  renameErr : Bool

/-- The call whose error `saveSince` returns. -/
inductive SaveErr
  | mkdirAll
  | openFile
  | write
  | close
  | rename
deriving DecidableEq, Repr

/-- `saveSince(path, since)`, where `dir` is `filepath.Dir(path)`: the effects of its calls on the
files, in order, and its error. A failing `WriteString` leaves the bytes it got out, `Close`
changes no content, the `Remove` after a failed write or close may itself fail, and a failing
`MkdirAll`, `OpenFile` or `Rename` changes nothing. -/
def saveSince (env : SaveEnv) (dir path : String) (since : BitVec 64) :
    List (Files → Files) × Option SaveErr :=
  if dir ≠ "." ∧ dir ≠ "" ∧ env.mkdirAllErr then ([], some .mkdirAll)
  else
    let tmp := path ++ ".tmp"
    if env.openFileErr then ([], some .openFile)
    else
      let data := formatUint since
      let remove : Files → Files := if env.removeErr then id else removeFile tmp
      match env.writeErr with
      | some n => ([writeFile tmp [], writeFile tmp (data.take n), remove], some .write)
      | none =>
        if env.closeErr then ([writeFile tmp [], writeFile tmp data, remove], some .close)
        else if env.renameErr then ([writeFile tmp [], writeFile tmp data], some .rename)
        else ([writeFile tmp [], writeFile tmp data, rename tmp path], none)

theorem path_ne_tmp (path : String) : path ≠ path ++ ".tmp" := fun h => by
  have := congrArg String.length h
  rw [String.length_append] at this
  exact absurd this (by simp [show ".tmp".length = 4 from rfl])

/-- A `saveSince` either fails with no effect on `path`, or succeeds by writing the temporary file
and renaming it over `path`. -/
theorem saveSince_cases (env : SaveEnv) (dir path : String) (since : BitVec 64) :
    ((∀ f ∈ (saveSince env dir path since).1, ∀ fs, f fs path = fs path) ∧
        (saveSince env dir path since).2 ≠ none) ∨
      saveSince env dir path since = ([writeFile (path ++ ".tmp") [],
        writeFile (path ++ ".tmp") (formatUint since), rename (path ++ ".tmp") path], none) := by
  have hne := path_ne_tmp path
  unfold saveSince
  dsimp only
  generalize hr : (if env.removeErr = true then id else removeFile (path ++ ".tmp")) = remove
  have hremove : ∀ fs, remove fs path = fs path := by subst hr; intro fs; split <;> simp [hne]
  split_ifs <;> cases env.writeErr <;> simp [hne, hremove]

/-- At every crash point of `saveSince`, `path` holds its old content or the whole new value. -/
theorem saveSince_crash (env : SaveEnv) (dir path : String) (since : BitVec 64) (fs : Files)
    (k : Nat) :
    fs.run ((saveSince env dir path since).1.take k) path = fs path ∨
      fs.run ((saveSince env dir path since).1.take k) path = some (formatUint since) := by
  rcases saveSince_cases env dir path since with ⟨hframe, -⟩ | hok
  · exact .inl (run_of_frame (fun f hf => hframe f (List.mem_of_mem_take hf)) fs)
  · rw [hok]
    rcases k with _ | _ | _ | k <;> simp [Files.run, path_ne_tmp]

/-- When `saveSince` returns, `path` holds the new value if it returned nil and its old content
otherwise. -/
theorem saveSince_final (env : SaveEnv) (dir path : String) (since : BitVec 64) (fs : Files) :
    fs.run (saveSince env dir path since).1 path =
      if (saveSince env dir path since).2 = none then some (formatUint since) else fs path := by
  rcases saveSince_cases env dir path since with ⟨hframe, herr⟩ | hok
  · rw [if_neg herr, run_of_frame hframe]
  · rw [hok]; simp [Files.run, path_ne_tmp]

/-- Whatever the OS answers and wherever `saveSince` is cut short, `loadSince` afterwards returns
what it returned before or the new `since`; once `saveSince` has returned, it is the new `since`
exactly when `saveSince` returned nil. -/
theorem loadSince_saveSince (env : SaveEnv) (dir path : String) (since : BitVec 64) (fs : Files) :
    (∀ k, loadSince (fs.run ((saveSince env dir path since).1.take k) path) = loadSince (fs path) ∨
        loadSince (fs.run ((saveSince env dir path since).1.take k) path) = since) ∧
      loadSince (fs.run (saveSince env dir path since).1 path) =
        if (saveSince env dir path since).2 = none then since else loadSince (fs path) := by
  refine ⟨fun k => ?_, ?_⟩
  · rcases saveSince_crash env dir path since fs k with h | h <;> rw [h]
    · exact .inl rfl
    · exact .inr (loadSince_formatUint since)
  · rw [saveSince_final]
    split_ifs
    · exact loadSince_formatUint since
    · rfl

end Sdk
end MemoryStorage
