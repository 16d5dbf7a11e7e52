import MemoryStorage.SinceFile

/-!
# `RunBackupScheduleWithVersion`: hourly incrementals and a daily full

The schedule loads `since` from `since-<version>.txt`, takes a full backup when it is `0`, and
starts a loop whose timer fires at `nextHour`, the next whole hour. At each fire it takes a full
backup when the clock is within a minute of `nextDay`, the next midnight, and moves `nextDay` a day
on; otherwise it takes an incremental from `since`. Either way `nextHour` moves one hour on and the
timer is reset to it, so a fire that comes late is followed at once by one per missed hour. A
successful backup sets `since = last + 1` and saves it.

The model keeps the loop's deadlines (`Timers`), and around them the database's commit versions,
the backup files with the versions each holds, and the files `loadSince` and `saveSince` see.

* The goroutine reads the clock twice, once for `nextHour` and once for `nextDay`. Fired on time,
  the loop takes a full backup exactly at the deadlines that are midnights from that `nextDay` on
  (`onTime_full_iff_midnight`). When the two reads fall on one UTC day these are all the midnight
  deadlines; when a midnight falls between them, its fire is an incremental. A midnight fire a minute or more late is an incremental, and
  `nextDay` never moves again: the process takes no full backup after it
  (`fulls_stop_after_late_midnight`).
* While no backup file is replaced by one holding fewer versions, every committed version below
  the loop's `since`, and below the `since` a restart would load, is in some backup file, through
  failed backups, failed saves and crashes inside `saveSince` (`run_inv`). A loop more than an hour
  behind breaks that premise: its catch-up incrementals share one file name, and `os.Create`
  empties the earlier one (`catchUp_ticks_lose_versions`).
-/

namespace MemoryStorage.Sdk

/-! ### The loop's deadlines -/

/-- `time.Minute`, in nanoseconds. -/
def minute : Int := 60 * 1000000000

/-- `time.Hour`. -/
def hour : Int := 60 * minute

/-- `24 * time.Hour`. -/
def day : Int := 24 * hour

/-- `t.Truncate(d)` for `t` in nanoseconds since the Unix epoch: Go truncates since the zero time,
a whole number of days before the epoch. -/
def truncate (t d : Int) : Int := t - t % d

/-- The goroutine's `nextHour` and `nextDay`. The timer is always set to fire at `nextHour`:
`timer.Reset(time.Until(nextHour))` fires at once when `nextHour` has passed. -/
structure Timers where
  nextHour : Int
  nextDay : Int
deriving DecidableEq, Repr

/-- The goroutine's first lines: the next whole hour after the first `time.Now()`, and the next
midnight (UTC) after the second. -/
def Timers.init (hourNow dayNow : Int) : Timers :=
  ⟨truncate hourNow hour + hour, truncate dayNow day + day⟩

/-- The two backups the schedule takes. -/
inductive BackupKind
  | full
  | incr
deriving DecidableEq, Repr

/-- `now.After(nextDay.Add(-1*time.Minute)) && now.Before(nextDay.Add(1*time.Minute))`. -/
def nearMidnight (nextDay now : Int) : Bool :=
  decide (nextDay - minute < now) && decide (now < nextDay + minute)

/-- The body of `case <-timer.C` with `now := time.Now()`: the backup it takes, and the deadlines
after it. -/
def Timers.tick (t : Timers) (now : Int) : BackupKind × Timers :=
  if nearMidnight t.nextDay now then (.full, ⟨t.nextHour + hour, t.nextDay + day⟩)
  else (.incr, ⟨t.nextHour + hour, t.nextDay⟩)

/-- The loop firing at each of `nows` in turn: each fire's deadline and the backup it takes. -/
def Timers.ticks : Timers → List Int → List (Int × BackupKind)
  | _, [] => []
  | t, now :: nows => (t.nextHour, (t.tick now).1) :: (t.tick now).2.ticks nows

/-- Each fire comes at its deadline or less than a minute after it. -/
def Timers.OnTime : Timers → List Int → Prop
  | _, [] => True
  | t, now :: nows => (t.nextHour ≤ now ∧ now < t.nextHour + minute) ∧ (t.tick now).2.OnTime nows

instance Timers.decOnTime : ∀ t nows, Decidable (Timers.OnTime t nows)
  | _, [] => isTrue trivial
  | t, now :: nows =>
    have := Timers.decOnTime (t.tick now).2 nows
    inferInstanceAs (Decidable ((_ ∧ _) ∧ _))

/-- The next midnight is a minute or more behind the next deadline: the midnight fire was missed. -/
def Timers.Late (t : Timers) : Prop := t.nextDay + minute ≤ t.nextHour

/-- The deadlines of a loop that fires on time, from a first `nextDay` of `day₀`: a whole hour, not
after a midnight that is `day₀` or within a day of the deadline. -/
structure Timers.Tracks (day₀ : Int) (t : Timers) : Prop where
  hour_dvd : t.nextHour % hour = 0
  day_dvd : t.nextDay % day = 0
  le_day : t.nextHour ≤ t.nextDay
  day₀_le : day₀ ≤ t.nextDay
  first_or_lt : t.nextDay = day₀ ∨ t.nextDay - day < t.nextHour

section Deadlines
variable {t : Timers} {now day₀ : Int} {nows : List Int}

theorem minute_eq : minute = 60000000000 := rfl
theorem hour_eq : hour = 3600000000000 := rfl
theorem day_eq : day = 86400000000000 := rfl

/-- A fire a minute or more past `nextDay` takes an incremental and leaves `nextDay` where it is. -/
theorem Timers.tick_of_past (h : t.nextDay + minute ≤ now) :
    t.tick now = (.incr, ⟨t.nextHour + hour, t.nextDay⟩) := by
  rw [Timers.tick, if_neg]
  simp only [nearMidnight, Bool.and_eq_true, decide_eq_true_eq, not_and, not_lt]
  intro; exact h

theorem Timers.Late.le (h : t.Late) : t.nextDay ≤ t.nextHour := by
  unfold Late at h; rw [minute_eq] at h; omega

/-- After a fire that leaves `nextDay` where it is, the loop is past that midnight. -/
theorem Timers.late_next (hle : t.nextDay ≤ t.nextHour) :
    (⟨t.nextHour + hour, t.nextDay⟩ : Timers).Late := by
  rw [Late, hour_eq, minute_eq]
  dsimp only
  omega

theorem Timers.tracks_init {hourNow dayNow : Int} (h : hourNow ≤ dayNow) :
    (Timers.init hourNow dayNow).Tracks (Timers.init hourNow dayNow).nextDay where
  hour_dvd := by simp only [init, truncate, hour_eq]; omega
  day_dvd := by simp only [init, truncate, day_eq]; omega
  le_day := by simp only [init, truncate, day_eq, hour_eq]; omega
  day₀_le := le_rfl
  first_or_lt := .inl rfl

/-- On time, a fire is a full backup exactly when its deadline is a midnight not before `day₀`, and
the deadlines keep tracking `day₀`. -/
theorem Timers.tick_of_tracks (h : t.Tracks day₀) (h₁ : t.nextHour ≤ now)
    (h₂ : now < t.nextHour + minute) :
    ((t.tick now).1 = .full ↔ t.nextHour % day = 0 ∧ day₀ ≤ t.nextHour) ∧
      (t.tick now).2.Tracks day₀ := by
  obtain ⟨hh, hd, hle, h₀, hlt⟩ := h
  rw [day_eq, hour_eq] at *
  rw [minute_eq] at h₂
  by_cases hmid : t.nextHour = t.nextDay
  · have hnear : nearMidnight t.nextDay now = true := by
      simp only [nearMidnight, minute_eq, Bool.and_eq_true, decide_eq_true_eq]; omega
    simp only [Timers.tick, hnear, if_true, true_iff, day_eq, hour_eq]
    refine ⟨by omega, ?_, ?_, ?_, ?_, ?_⟩ <;> simp only [day_eq, hour_eq] <;> omega
  · have hnear : nearMidnight t.nextDay now = false := by
      simp only [nearMidnight, minute_eq, Bool.and_eq_false_iff, decide_eq_false_iff_not, not_lt]
      omega
    simp only [Timers.tick, hnear, Bool.false_eq_true, if_false, reduceCtorEq, false_iff, hour_eq]
    refine ⟨by omega, ?_, ?_, ?_, ?_, ?_⟩ <;> simp only [day_eq, hour_eq] <;> omega

/-- Every fire moves the deadline one hour on. -/
@[simp] theorem Timers.tick_nextHour : (t.tick now).2.nextHour = t.nextHour + hour := by
  unfold tick; split <;> rfl

/-- Every deadline of a run is at or after the first. -/
theorem Timers.le_of_mem_ticks {p : Int × BackupKind} (hp : p ∈ t.ticks nows) : t.nextHour ≤ p.1 := by
  induction nows generalizing t with
  | nil => cases hp
  | cons now nows ih =>
    rcases List.mem_cons.1 hp with rfl | hp
    · exact le_rfl
    · have := ih hp
      rw [tick_nextHour, hour_eq] at this
      omega

theorem Timers.ticks_of_tracks (h : t.Tracks day₀) (ho : t.OnTime nows) :
    ∀ p ∈ t.ticks nows, p.2 = .full ↔ p.1 % day = 0 ∧ day₀ ≤ p.1 := by
  induction nows generalizing t with
  | nil => simp [ticks]
  | cons now nows ih =>
    obtain ⟨⟨h₁, h₂⟩, ho⟩ := ho
    obtain ⟨hfull, htr⟩ := tick_of_tracks h h₁ h₂
    intro p hp
    rcases List.mem_cons.1 hp with rfl | hp
    · exact hfull
    · exact ih htr ho p hp

end Deadlines

/-- Started at any time, with the goroutine's two clock reads `hourNow ≤ dayNow`, and fired on
time, the loop takes a full backup at exactly the fires whose deadline is a midnight (UTC) at or
after the first `nextDay`, and an incremental at every other. When the two reads fall on one UTC
day, those are all the midnight deadlines. -/
theorem onTime_full_iff_midnight (hourNow dayNow : Int) (hle : hourNow ≤ dayNow) (nows : List Int)
    (ho : (Timers.init hourNow dayNow).OnTime nows) :
    (∀ p ∈ (Timers.init hourNow dayNow).ticks nows,
      p.2 = .full ↔ p.1 % day = 0 ∧ (Timers.init hourNow dayNow).nextDay ≤ p.1) ∧
    (truncate dayNow day = truncate hourNow day →
      ∀ p ∈ (Timers.init hourNow dayNow).ticks nows, p.2 = .full ↔ p.1 % day = 0) := by
  have hfull := Timers.ticks_of_tracks (Timers.tracks_init hle) ho
  refine ⟨hfull, fun hday p hp => (hfull p hp).trans (and_iff_left_of_imp fun hmod => ?_)⟩
  have h₀ := Timers.le_of_mem_ticks hp
  simp only [Timers.init, truncate, day_eq, hour_eq] at hday h₀ hmod ⊢
  omega

/-- The first read is a second before a midnight and the second read at it: `nextHour` is that
midnight and `nextDay` the next one. -/
theorem onTime_full_iff_midnight_straddle :
    20000 * day - 1000000000 ≤ 20000 * day ∧
      (Timers.init (20000 * day - 1000000000) (20000 * day)).OnTime
        [20000 * day, 20000 * day + hour] ∧
      (∀ p ∈ (Timers.init (20000 * day - 1000000000) (20000 * day)).ticks
          [20000 * day, 20000 * day + hour],
        p.2 = .full ↔ p.1 % day = 0 ∧ (Timers.init (20000 * day - 1000000000) (20000 * day)).nextDay ≤ p.1) ∧
      (truncate (20000 * day) day = truncate (20000 * day - 1000000000) day →
        ∀ p ∈ (Timers.init (20000 * day - 1000000000) (20000 * day)).ticks
          [20000 * day, 20000 * day + hour], p.2 = .full ↔ p.1 % day = 0) :=
  have hle : 20000 * day - 1000000000 ≤ 20000 * day := by decide
  have ho : (Timers.init (20000 * day - 1000000000) (20000 * day)).OnTime
      [20000 * day, 20000 * day + hour] := by decide
  ⟨hle, ho, onTime_full_iff_midnight _ _ hle _ ho⟩

/-- There the on-time fire at the midnight takes an incremental. -/
example : (Timers.init (20000 * day - 1000000000) (20000 * day)).ticks
    [20000 * day, 20000 * day + hour] = [(20000 * day, .incr), (20000 * day + hour, .incr)] := by
  decide

/-! ### Backups, the since file and the process -/

/-- A backup file's name by what it encodes: `full-<version>-YYYY-MM-DD.bak.gz` a local date,
`incr-<version>-YYYY-MM-DD-HH.bak.gz` a local hour, each counted from the epoch. -/
inductive BackupName
  | full (date : Int)
  | incr (hour : Int)
deriving DecidableEq, Repr

def BackupName.isFull : BackupName → Bool
  | .full _ => true
  | .incr _ => false

/-- The schedule's `dir` and `version`, and the offset of the local zone from UTC in nanoseconds,
which `Format` applies. -/
structure ScheduleConfig where
  dir : String
  version : String
  zone : Int

/-- `filepath.Join(dir, fmt.Sprintf("since-%s.txt", version))`. -/
def ScheduleConfig.sincePath (cfg : ScheduleConfig) : String :=
  cfg.dir ++ "/since-" ++ cfg.version ++ ".txt"

/-- The local date `time.Now().Format("2006-01-02")` spells. -/
def ScheduleConfig.date (cfg : ScheduleConfig) (now : Int) : Int := (now + cfg.zone) / day

/-- The local hour `time.Now().Format("2006-01-02-15")` spells. -/
def ScheduleConfig.hourStamp (cfg : ScheduleConfig) (now : Int) : Int := (now + cfg.zone) / hour

/-- The largest version of `l`, `0` when there is none: what `stream.Backup` returns. -/
def maxVersion (l : List Nat) : Nat := l.foldr max 0

/-- How one `FullBackupToFile` or `IncrementalBackupToFile` ends. -/
inductive BackupResult
  /-- `os.Create` fails: nothing is touched. -/
  | createErr
  /-- The stream, or a deferred `Close`, fails: the file is left, holding no usable backup. -/
  | streamErr
  | ok
deriving DecidableEq, Repr

/-- What the OS, badger and the process do during one backup: how it ends, the answers to the
calls of the `saveSince` after it, and whether the process dies after `k` of that `saveSince`'s
effects. -/
structure BackupEnv where
  result : BackupResult
  save : SaveEnv
  crash : Option Nat

/-- The database's commit versions in commit order, the backup directory with the versions each
file holds, the files `loadSince` and `saveSince` see, the schedule's `since`, and its loop's
deadlines (`none` when no loop runs). -/
structure World where
  committed : List Nat
  files : List (BackupName × List Nat)
  disk : Files
  since : BitVec 64
  timers : Option Timers

/-- No commits, no files, no loop. -/
def World.empty : World := ⟨[], [], fun _ => none, 0, none⟩

/-- `os.Create(path)` and the stream after it: `name` now holds `data`. -/
def writeBackup (name : BackupName) (data : List Nat) (files : List (BackupName × List Nat)) :
    List (BackupName × List Nat) :=
  (name, data) :: files.filter fun f => f.1 != name

/-- `FullBackupToFile` or `IncrementalBackupToFile` from `sinceTs` into `name`; when it succeeds,
`since = last + 1` and `saveSince(sincePath, since)`, whose error is dropped. -/
def World.backupToFile (cfg : ScheduleConfig) (w : World) (name : BackupName) (sinceTs : Nat)
    (env : BackupEnv) : World :=
  match env.result with
  | .createErr => w
  | .streamErr => { w with files := writeBackup name [] w.files }
  | .ok =>
    let written := w.committed.filter fun v => sinceTs ≤ v
    let since := BitVec.ofNat 64 (maxVersion written) + 1
    let effects := (saveSince env.save cfg.dir cfg.sincePath since).1
    match env.crash with
    | none => { w with files := writeBackup name written w.files, since, disk := w.disk.run effects }
    | some k =>
      { w with files := writeBackup name written w.files, since,
               disk := w.disk.run (effects.take k), timers := none }

/-- `doFull`: `full-<version>-<date>.bak.gz`, streamed from version `0`. -/
def World.doFull (cfg : ScheduleConfig) (w : World) (now : Int) (env : BackupEnv) : World :=
  w.backupToFile cfg (.full (cfg.date now)) 0 env

/-- `doIncr`: `incr-<version>-<date>-<hour>.bak.gz`, streamed from `since`. -/
def World.doIncr (cfg : ScheduleConfig) (w : World) (now : Int) (env : BackupEnv) : World :=
  w.backupToFile cfg (.incr (cfg.hourStamp now)) w.since.toNat env

/-- `RunBackupScheduleWithVersion` in a fresh process, its `doFull` reading the clock at `now` and
its goroutine at `hourNow` and `dayNow`: a failing `MkdirAll` returns its error and starts nothing;
otherwise `since := loadSince(sincePath)`, a full backup when it is `0`, and the loop. -/
def World.runBackupScheduleWithVersion (cfg : ScheduleConfig) (w : World) (now : Int)
    (mkdirErr : Bool) (env : BackupEnv) (hourNow dayNow : Int) : World :=
  if mkdirErr then { w with timers := none }
  else
    let w := { w with since := loadSince (w.disk cfg.sincePath),
                      timers := some (Timers.init hourNow dayNow) }
    if w.since = 0 then w.doFull cfg now env else w

/-- The timer fires at `now`: nothing when no loop runs or its deadline is still ahead, else the
loop's body. -/
def World.tick (cfg : ScheduleConfig) (w : World) (now : Int) (env : BackupEnv) : World :=
  match w.timers with
  | none => w
  | some t =>
    if now < t.nextHour then w
    else
      let w := { w with timers := some (t.tick now).2 }
      match (t.tick now).1 with
      | .full => w.doFull cfg now env
      | .incr => w.doIncr cfg now env

/-- A write commits at `v`. Badger's commit versions only grow: a smaller `v` is no commit. -/
def World.commit (w : World) (v : Nat) : World :=
  if maxVersion w.committed < v then { w with committed := w.committed ++ [v] } else w

/-- What can happen next. -/
inductive ScheduleEvent
  | commit (v : Nat)
  | start (now : Int) (mkdirErr : Bool) (env : BackupEnv) (hourNow dayNow : Int)
  | tick (now : Int) (env : BackupEnv)
  /-- `ctx.Done()`, or the process stops. -/
  | cancel

def ScheduleEvent.isStart : ScheduleEvent → Bool
  | .start .. => true
  | _ => false

def World.step (cfg : ScheduleConfig) (w : World) : ScheduleEvent → World
  | .commit v => w.commit v
  | .start now mkdirErr env hourNow dayNow =>
    w.runBackupScheduleWithVersion cfg now mkdirErr env hourNow dayNow
  | .tick now env => w.tick cfg now env
  | .cancel => { w with timers := none }

def World.run (cfg : ScheduleConfig) (w : World) (es : List ScheduleEvent) : World :=
  es.foldl (World.step cfg) w

/-! ### Every version below `since` is backed up -/

/-- Some backup file holds version `v`. -/
def BackedUp (files : List (BackupName × List Nat)) (v : Nat) : Prop := ∃ f ∈ files, v ∈ f.2

instance (files : List (BackupName × List Nat)) (v : Nat) : Decidable (BackedUp files v) :=
  inferInstanceAs (Decidable (∃ f ∈ files, v ∈ f.2))

/-- `s` trails the backups: every committed version below it is backed up, and it is at most one
past the newest commit. -/
structure Trails (committed : List Nat) (files : List (BackupName × List Nat)) (s : BitVec 64) :
    Prop where
  backedUp : ∀ v ∈ committed, v < s.toNat → BackedUp files v
  le_max : s.toNat ≤ maxVersion committed + 1

/-- Both `since`s trail the backups: the loop's, and the one a restart would load. -/
structure World.Inv (cfg : ScheduleConfig) (w : World) : Prop where
  since : Trails w.committed w.files w.since
  disk : Trails w.committed w.files (loadSince (w.disk cfg.sincePath))

/-- Every backup file stays, holding at least the versions it held. -/
def FilesGrow (files files' : List (BackupName × List Nat)) : Prop :=
  ∀ f ∈ files, ∃ g ∈ files', g.1 = f.1 ∧ ∀ v ∈ f.2, v ∈ g.2

instance (files files' : List (BackupName × List Nat)) : Decidable (FilesGrow files files') :=
  inferInstanceAs (Decidable (∀ f ∈ files, ∃ g ∈ files', g.1 = f.1 ∧ ∀ v ∈ f.2, v ∈ g.2))

/-- No step of the run replaces a backup file by one holding fewer versions. -/
def World.Grows (cfg : ScheduleConfig) : World → List ScheduleEvent → Prop
  | _, [] => True
  | w, e :: es => FilesGrow w.files (w.step cfg e).files ∧ (w.step cfg e).Grows cfg es

instance World.decGrows (cfg : ScheduleConfig) : ∀ w es, Decidable (World.Grows cfg w es)
  | _, [] => isTrue trivial
  | w, e :: es =>
    have := World.decGrows cfg (w.step cfg e) es
    inferInstanceAs (Decidable (FilesGrow _ _ ∧ _))

section Invariant
variable {cfg : ScheduleConfig} {w : World} {committed : List Nat}
  {files files' : List (BackupName × List Nat)} {s : BitVec 64} {v : Nat}

theorem maxVersion_le_iff {l : List Nat} {n : Nat} : maxVersion l ≤ n ↔ ∀ v ∈ l, v ≤ n := by
  induction l with
  | nil => simp [maxVersion]
  | cons x l ih => simp [maxVersion, ← ih]

theorem le_maxVersion {l : List Nat} (h : v ∈ l) : v ≤ maxVersion l :=
  maxVersion_le_iff.1 le_rfl v h

theorem FilesGrow.backedUp (h : FilesGrow files files') (hv : BackedUp files v) :
    BackedUp files' v :=
  let ⟨f, hf, hvf⟩ := hv
  let ⟨g, hg, _, hsub⟩ := h f hf
  ⟨g, hg, hsub v hvf⟩

theorem Trails.of_grows (h : Trails committed files s) (hg : FilesGrow files files') :
    Trails committed files' s :=
  ⟨fun v hv hlt => hg.backedUp (h.backedUp v hv hlt), h.le_max⟩

/-- A commit is newer than every version, so no `since` passes it. -/
theorem Trails.append (h : Trails committed files s) (hv : maxVersion committed < v) :
    Trails (committed ++ [v]) files s := by
  have hle : maxVersion committed ≤ maxVersion (committed ++ [v]) :=
    maxVersion_le_iff.2 fun u hu => le_maxVersion (List.mem_append_left _ hu)
  have hmax := h.le_max
  refine ⟨fun u hu hlt => ?_, by omega⟩
  rcases List.mem_append.1 hu with hu | hu
  · exact h.backedUp u hu hlt
  · rw [List.mem_singleton.1 hu] at hlt; omega

theorem toNat_ofNat_add_one_le (m : Nat) : (BitVec.ofNat 64 m + 1).toNat ≤ m + 1 := by
  rw [BitVec.toNat_add, BitVec.toNat_ofNat, show (1 : BitVec 64).toNat = 1 from rfl]
  exact (Nat.mod_le _ _).trans (Nat.succ_le_succ (Nat.mod_le _ _))

/-- After a successful backup from `sinceTs` into `name`, where every version below `sinceTs` was
backed up, `last + 1` trails the backups: what it passes is in the new file or was backed up. -/
theorem trails_backup {name : BackupName} {sinceTs : Nat}
    (hold : ∀ v ∈ committed, v < sinceTs → BackedUp files v) (hg : FilesGrow files files')
    (hf : files' = writeBackup name (committed.filter fun v => sinceTs ≤ v) files) :
    Trails committed files' (BitVec.ofNat 64 (maxVersion (committed.filter fun v => sinceTs ≤ v)) + 1) where
  backedUp v hv hlt := by
    by_cases hs : sinceTs ≤ v
    · exact ⟨(name, _), by rw [hf]; exact List.mem_cons_self _ _,
        List.mem_filter.2 ⟨hv, decide_eq_true hs⟩⟩
    · exact hg.backedUp (hold v hv (by omega))
  le_max := (toNat_ofNat_add_one_le _).trans (Nat.succ_le_succ (maxVersion_le_iff.2 fun _ hu =>
    le_maxVersion (List.mem_filter.1 hu).1))

/-- Cut short anywhere, `saveSince` leaves a `since` file that loads the old value or the new one. -/
theorem trails_loadSince_run {fs : Files} {env : SaveEnv} {since : BitVec 64}
    {effects : List (Files → Files)} (hpre : effects <+: (saveSince env cfg.dir cfg.sincePath since).1)
    (hold : Trails committed files (loadSince (fs cfg.sincePath)))
    (hnew : Trails committed files since) :
    Trails committed files (loadSince (fs.run effects cfg.sincePath)) := by
  rw [List.prefix_iff_eq_take.1 hpre]
  rcases saveSince_crash env cfg.dir cfg.sincePath since fs effects.length with hk | hk <;> rw [hk]
  · exact hold
  · rw [loadSince_formatUint]; exact hnew

/-- A successful backup writes the versions from `sinceTs` into `name`, moves `since` past them, and
runs `saveSince`'s effects, all of them unless the process dies first. -/
theorem backupToFile_of_ok (cfg : ScheduleConfig) (w : World) (name : BackupName) (sinceTs : Nat)
    {env : BackupEnv} (hr : env.result = .ok) :
    (w.backupToFile cfg name sinceTs env).committed = w.committed ∧
      (w.backupToFile cfg name sinceTs env).files =
        writeBackup name (w.committed.filter fun v => sinceTs ≤ v) w.files ∧
      (w.backupToFile cfg name sinceTs env).since =
        BitVec.ofNat 64 (maxVersion (w.committed.filter fun v => sinceTs ≤ v)) + 1 ∧
      ∃ effects, effects <+: (saveSince env.save cfg.dir cfg.sincePath
          (w.backupToFile cfg name sinceTs env).since).1 ∧
        (w.backupToFile cfg name sinceTs env).disk = w.disk.run effects := by
  unfold World.backupToFile
  rw [hr]
  rcases env.crash with _ | k
  · exact ⟨rfl, rfl, rfl, _, List.prefix_refl _, rfl⟩
  · exact ⟨rfl, rfl, rfl, _, List.take_prefix k _, rfl⟩

/-- A backup from `sinceTs`, where every version below `sinceTs` is already backed up, keeps the
invariant as long as no file loses a version. -/
theorem World.Inv.backupToFile (h : w.Inv cfg) {name : BackupName} {sinceTs : Nat}
    (hold : ∀ v ∈ w.committed, v < sinceTs → BackedUp w.files v) {env : BackupEnv}
    (hg : FilesGrow w.files (w.backupToFile cfg name sinceTs env).files) :
    (w.backupToFile cfg name sinceTs env).Inv cfg := by
  rcases hr : env.result
  case createErr => simpa only [World.backupToFile, hr] using h
  case streamErr =>
    simp only [World.backupToFile, hr] at hg ⊢
    exact ⟨h.since.of_grows hg, h.disk.of_grows hg⟩
  case ok =>
    obtain ⟨hc, hf, hs, effects, hpre, hd⟩ := backupToFile_of_ok cfg w name sinceTs hr
    have hnew := trails_backup hold hg hf
    rw [← hs] at hnew
    constructor <;> rw [hc]
    · exact hnew
    · rw [hd]
      exact trails_loadSince_run hpre (h.disk.of_grows hg) hnew

theorem World.Inv.tick (h : w.Inv cfg) (now : Int) (env : BackupEnv)
    (hg : FilesGrow w.files (w.tick cfg now env).files) : (w.tick cfg now env).Inv cfg := by
  rcases ht : w.timers with _ | t
  · simpa only [World.tick, ht] using h
  · by_cases hnow : now < t.nextHour
    · simpa only [World.tick, ht, if_pos hnow] using h
    · simp only [World.tick, ht, if_neg hnow] at hg ⊢
      generalize (t.tick now).1 = kind at hg ⊢
      have h' : World.Inv cfg { w with timers := some (t.tick now).2 } := ⟨h.since, h.disk⟩
      cases kind <;> dsimp only [World.doFull, World.doIncr] at hg ⊢
      · exact h'.backupToFile (fun _ _ h => absurd h (Nat.not_lt_zero _)) hg
      · exact h'.backupToFile h.since.backedUp hg

theorem World.Inv.runBackupScheduleWithVersion (h : w.Inv cfg) (now : Int) (mkdirErr : Bool)
    (env : BackupEnv) (hourNow dayNow : Int)
    (hg : FilesGrow w.files (w.runBackupScheduleWithVersion cfg now mkdirErr env hourNow dayNow).files) :
    (w.runBackupScheduleWithVersion cfg now mkdirErr env hourNow dayNow).Inv cfg := by
  have h' : World.Inv cfg
      { w with since := loadSince (w.disk cfg.sincePath),
               timers := some (Timers.init hourNow dayNow) } :=
    ⟨h.disk, h.disk⟩
  unfold World.runBackupScheduleWithVersion World.doFull at hg ⊢
  dsimp only at hg ⊢
  split_ifs at hg ⊢
  · exact ⟨h.since, h.disk⟩
  · exact h'.backupToFile (fun _ _ h => absurd h (Nat.not_lt_zero _)) hg
  · exact h'

theorem World.Inv.step (h : w.Inv cfg) (e : ScheduleEvent) (hg : FilesGrow w.files (w.step cfg e).files) :
    (w.step cfg e).Inv cfg := by
  cases e with
  | commit v =>
    simp only [World.step, World.commit]
    split_ifs with hv
    · exact ⟨h.since.append hv, h.disk.append hv⟩
    · exact h
  | start now mkdirErr env hourNow dayNow =>
    exact h.runBackupScheduleWithVersion now mkdirErr env hourNow dayNow hg
  | tick now env => exact h.tick now env hg
  | cancel => exact ⟨h.since, h.disk⟩

theorem inv_empty (cfg : ScheduleConfig) : World.empty.Inv cfg :=
  ⟨⟨fun _ h => (nomatch h), Nat.zero_le _⟩, ⟨fun _ h => (nomatch h), by simp [World.empty, loadSince]⟩⟩

end Invariant

/-- While no backup file is replaced by one holding fewer versions, every committed version below
the loop's `since`, and below the `since` a restart would load, is in some backup file: through
restarts, failed backups, failed saves and crashes inside `saveSince`. -/
theorem run_inv {cfg : ScheduleConfig} {w : World} (h : w.Inv cfg) {es : List ScheduleEvent}
    (hg : w.Grows cfg es) : (w.run cfg es).Inv cfg := by
  induction es generalizing w with
  | nil => exact h
  | cons e es ih => exact ih (h.step e hg.1) hg.2

/-- A backup that succeeds, with its `since` saved. -/
def okEnv : BackupEnv := ⟨.ok, ⟨false, false, none, false, false, false⟩, none⟩

theorem run_inv_start_and_tick :
    World.empty.Inv ⟨"/backups", "v1", 0⟩ ∧
      World.empty.Grows ⟨"/backups", "v1", 0⟩
        [.commit 1, .start (20000 * day + 10 * hour) false okEnv (20000 * day + 10 * hour)
            (20000 * day + 10 * hour), .commit 2,
          .tick (20000 * day + 11 * hour) okEnv] ∧
      (World.empty.run ⟨"/backups", "v1", 0⟩
        [.commit 1, .start (20000 * day + 10 * hour) false okEnv (20000 * day + 10 * hour)
            (20000 * day + 10 * hour), .commit 2,
          .tick (20000 * day + 11 * hour) okEnv]).Inv ⟨"/backups", "v1", 0⟩ :=
  have hg : World.empty.Grows ⟨"/backups", "v1", 0⟩
      [.commit 1, .start (20000 * day + 10 * hour) false okEnv (20000 * day + 10 * hour)
            (20000 * day + 10 * hour), .commit 2,
        .tick (20000 * day + 11 * hour) okEnv] := by decide
  ⟨inv_empty _, hg, run_inv (inv_empty _) hg⟩

/-- A loop more than an hour behind: versions 1 and 2 are committed and the schedule starts at
10:30 with a full backup, so `since = 3`. Versions 3 and 4 are committed, and the 11:00 fire comes
only at 14:10: an incremental into `incr-…-14` holds 3 and 4, and `since = 5`. The 12:00 deadline
has passed, so the timer fires again at once; version 5 has been committed, and the next
incremental goes to the same `incr-…-14`, which `os.Create` empties. -/
def catchUpEvents : List ScheduleEvent :=
  [.commit 1, .commit 2, .start (20000 * day + 10 * hour + 30 * minute) false okEnv
      (20000 * day + 10 * hour + 30 * minute) (20000 * day + 10 * hour + 30 * minute),
    .commit 3, .commit 4, .tick (20000 * day + 14 * hour + 10 * minute) okEnv, .commit 5,
    .tick (20000 * day + 14 * hour + 11 * minute) okEnv]

/-- `run_inv` needs its premise: the catch-up run replaces a backup file by an emptier one, and
ends with `since = 6` while no backup file holds the committed versions 3 and 4. -/
theorem catchUp_ticks_lose_versions :
    ¬ World.empty.Grows ⟨"/backups", "v1", 0⟩ catchUpEvents ∧
      (World.empty.run ⟨"/backups", "v1", 0⟩ catchUpEvents).since = 6 ∧
      ∀ v ∈ [3, 4], v ∈ (World.empty.run ⟨"/backups", "v1", 0⟩ catchUpEvents).committed ∧
        ¬ BackedUp (World.empty.run ⟨"/backups", "v1", 0⟩ catchUpEvents).files v := by
  decide

/-! ### The daily full stops after a late midnight -/

section Late
variable {cfg : ScheduleConfig} {w : World}

theorem filter_isFull_writeBackup_incr (h : Int) (data : List Nat)
    (files : List (BackupName × List Nat)) :
    (writeBackup (.incr h) data files).filter (·.1.isFull) = files.filter (·.1.isFull) := by
  simp only [writeBackup, List.filter_cons, BackupName.isFull, Bool.false_eq_true, if_false,
    List.filter_filter]
  congr 1
  funext f
  cases f.1 <;> simp [BackupName.isFull]

/-- An incremental writes no full backup, and leaves the loop's deadlines or stops the loop. -/
theorem World.doIncr_of_late {t : Timers} (ht : w.timers = some t) (hl : t.Late) (now : Int)
    (env : BackupEnv) :
    (∀ t', (w.doIncr cfg now env).timers = some t' → t'.Late) ∧
      (w.doIncr cfg now env).files.filter (·.1.isFull) = w.files.filter (·.1.isFull) := by
  unfold World.doIncr World.backupToFile
  rcases env.result with _ | _ | _
  · exact ⟨fun t' h => by rw [ht] at h; cases h; exact hl, rfl⟩
  · exact ⟨fun t' h => by rw [ht] at h; cases h; exact hl, filter_isFull_writeBackup_incr _ _ _⟩
  · rcases env.crash with _ | k
    · exact ⟨fun t' h => by rw [ht] at h; cases h; exact hl, filter_isFull_writeBackup_incr _ _ _⟩
    · exact ⟨fun _ h => (nomatch h), filter_isFull_writeBackup_incr _ _ _⟩

/-- A fire a minute or more past `nextDay` is the loop's body with an incremental. -/
theorem World.tick_eq_doIncr {t : Timers} (ht : w.timers = some t) {now : Int}
    (hnow : t.nextHour ≤ now) (hpast : t.nextDay + minute ≤ now) (env : BackupEnv) :
    w.tick cfg now env = { w with timers := some ⟨t.nextHour + hour, t.nextDay⟩ }.doIncr cfg now env := by
  simp only [World.tick, ht, Timers.tick_of_past hpast, if_neg (not_lt.2 hnow)]

/-- Outside a start, a loop that is stopped or past a missed midnight stays so and writes no full
backup. -/
theorem step_of_late (hl : ∀ t, w.timers = some t → t.Late) {e : ScheduleEvent} (he : e.isStart = false) :
    (∀ t, (w.step cfg e).timers = some t → t.Late) ∧
      (w.step cfg e).files.filter (·.1.isFull) = w.files.filter (·.1.isFull) := by
  cases e with
  | commit v =>
    simp only [World.step, World.commit]
    split_ifs <;> exact ⟨hl, rfl⟩
  | start => cases he
  | cancel => exact ⟨fun _ h => (nomatch h), rfl⟩
  | tick now env =>
    rcases ht : w.timers with _ | t
    · simp only [World.step, World.tick, ht]; exact ⟨fun _ h => (nomatch h), trivial⟩
    · by_cases hnow : now < t.nextHour
      · simp only [World.step, World.tick, ht, if_pos hnow]
        exact ⟨fun t' h => hl t' (ht.trans h), trivial⟩
      · have hlate := hl t ht
        rw [World.step, World.tick_eq_doIncr ht (not_lt.1 hnow) (hlate.trans (not_lt.1 hnow))]
        exact World.doIncr_of_late rfl (Timers.late_next hlate.le) now env

theorem run_of_late (hl : ∀ t, w.timers = some t → t.Late) {es : List ScheduleEvent}
    (hes : ∀ e ∈ es, e.isStart = false) :
    (w.run cfg es).files.filter (·.1.isFull) = w.files.filter (·.1.isFull) := by
  induction es generalizing w with
  | nil => rfl
  | cons e es ih =>
    obtain ⟨hl', hf⟩ := step_of_late hl (hes e (List.mem_cons_self _ _))
    exact (ih hl' fun e' he' => hes e' (List.mem_cons_of_mem _ he')).trans hf

end Late

/-- When the fire for a midnight comes a minute or more late (the process was suspended, or the
backup before it ran long), the loop takes an incremental, never moves `nextDay` again, and the
process writes no full backup from then on, whatever happens until it restarts. -/
theorem fulls_stop_after_late_midnight {cfg : ScheduleConfig} {w : World} {t : Timers}
    (ht : w.timers = some t) (hmid : t.nextHour = t.nextDay) {now : Int}
    (hlate : t.nextDay + minute ≤ now) (env : BackupEnv) {es : List ScheduleEvent}
    (hes : ∀ e ∈ es, e.isStart = false) :
    ((w.step cfg (.tick now env)).run cfg es).files.filter (·.1.isFull) =
      w.files.filter (·.1.isFull) := by
  have hnow : t.nextHour ≤ now := by rw [minute_eq] at hlate; omega
  rw [World.step, World.tick_eq_doIncr ht hnow hlate]
  refine (run_of_late ?_ hes).trans ?_
  · exact (World.doIncr_of_late rfl (Timers.late_next hmid.ge) now env).1
  · exact (World.doIncr_of_late rfl (Timers.late_next hmid.ge) now env).2

theorem fulls_stop_after_late_midnight_at_two :
    (World.empty.step ⟨"/backups", "v1", 0⟩ (.start (20000 * day + 23 * hour) false okEnv
            (20000 * day + 23 * hour) (20000 * day + 23 * hour))).timers =
        some (Timers.init (20000 * day + 23 * hour) (20000 * day + 23 * hour)) ∧
      (Timers.init (20000 * day + 23 * hour) (20000 * day + 23 * hour)).nextHour =
        (Timers.init (20000 * day + 23 * hour) (20000 * day + 23 * hour)).nextDay ∧
      (Timers.init (20000 * day + 23 * hour) (20000 * day + 23 * hour)).nextDay + minute ≤ 20001 * day + 2 * minute ∧
      (∀ e ∈ [ScheduleEvent.commit 1, .tick (20001 * day + hour) okEnv], e.isStart = false) ∧
      (((World.empty.step ⟨"/backups", "v1", 0⟩ (.start (20000 * day + 23 * hour) false okEnv
            (20000 * day + 23 * hour) (20000 * day + 23 * hour))).step
          ⟨"/backups", "v1", 0⟩ (.tick (20001 * day + 2 * minute) okEnv)).run ⟨"/backups", "v1", 0⟩
          [.commit 1, .tick (20001 * day + hour) okEnv]).files.filter (·.1.isFull) =
        (World.empty.step ⟨"/backups", "v1", 0⟩
          (.start (20000 * day + 23 * hour) false okEnv
            (20000 * day + 23 * hour) (20000 * day + 23 * hour))).files.filter (·.1.isFull) :=
  have ht : (World.empty.step ⟨"/backups", "v1", 0⟩
      (.start (20000 * day + 23 * hour) false okEnv
            (20000 * day + 23 * hour) (20000 * day + 23 * hour))).timers =
      some (Timers.init (20000 * day + 23 * hour) (20000 * day + 23 * hour)) := by decide
  have hmid : (Timers.init (20000 * day + 23 * hour) (20000 * day + 23 * hour)).nextHour =
      (Timers.init (20000 * day + 23 * hour) (20000 * day + 23 * hour)).nextDay := by decide
  have hlate : (Timers.init (20000 * day + 23 * hour) (20000 * day + 23 * hour)).nextDay + minute ≤
      20001 * day + 2 * minute := by decide
  have hes : ∀ e ∈ [ScheduleEvent.commit 1, .tick (20001 * day + hour) okEnv], e.isStart = false := by
    decide
  ⟨ht, hmid, hlate, hes, fulls_stop_after_late_midnight ht hmid hlate okEnv hes⟩

end MemoryStorage.Sdk
