import Aesmsg.Lib.Threads
import Mathlib.Data.List.Lex
import Mathlib.Data.List.Sort

/-!
# Migrations

`packages/server-store/src/migrate.ts`: calls of `runMigrations` as threads on one database.  A step is
one statement, which may fail or lose its connection before or after it takes effect; a run that has
lost its connection, or has crashed, does nothing more, and the database ends its session later.

The SQL of a file is known by the name of the file.

## Main results

- `migrations_sound`: in every state that is reached the files whose SQL is committed are those
  recorded, each once; a run applies what was pending in sorted order, and one that fails leaves the
  file that failed as the next one pending.
-/

namespace Aesmsg.Store.Migrate

open Threads

/-- A name by its UTF-16 units. -/
abbrev Filename := List UInt16

/-- The key of a name in the order of `sort()`. -/
def Filename.units (file : Filename) : List Nat := file.map UInt16.toNat

def Filename.Le (file file' : Filename) : Prop := file.units ≤ file'.units

instance : DecidableRel Filename.Le := fun file file' ↦ inferInstanceAs (Decidable (file.units ≤ file'.units))

instance : IsTrans Filename Filename.Le := ⟨fun _ _ _ ↦ le_trans⟩

instance : Std.Total Filename.Le := ⟨fun file file' ↦ le_total file.units file'.units⟩

/-- `f.endsWith(".sql")` -/
def isSql (file : Filename) : Bool := [46, 115, 113, 108].isSuffixOf file

def sqlFiles (allFiles : List Filename) : List Filename := (allFiles.filter isSql).insertionSort Filename.Le

/-- The files of a directory that are not among the rows of `_migrations`, in the order of `sort()`. -/
def pending (allFiles rows : List Filename) : List Filename := (sqlFiles allFiles).filter (· ∉ rows)

/-- A connection to the database. -/
abbrev Session := Nat

structure Db where
  /-- The session that holds the advisory lock, and how often. -/
  lock : Option (Session × Nat)
  /-- `_migrations` exists. -/
  created : Bool
  /-- The files whose SQL is committed. -/
  applied : List Filename
  /-- The rows of `_migrations`. -/
  recorded : List Filename
  /-- The run that has checked out the client of a session. -/
  taken : Session → Option Nat

def Db.initial : Db := ⟨none, false, [], [], fun _ ↦ none⟩

/-- What an open transaction has written. -/
structure Tx where
  sql : List Filename
  rows : List Filename

/-- How far a run has come: the rows that it has read, the files that it has applied, and those that
its loop has not dealt with. -/
structure Progress where
  allFiles : List Filename
  alreadyApplied : List Filename
  newlyApplied : List Filename
  todo : List Filename

/-- How a run ends. -/
inductive Ending where
  /-- It has not read the rows. -/
  | early
  | resolved (p : Progress)
  /-- It has failed at the first file that is left to do. -/
  | failed (p : Progress)
  /-- It was lost when a `COMMIT` had taken effect. -/
  | lost (p : Progress)

/-- Where a run stands: the next thing it does. -/
inductive Pc where
  | connect (allFiles : List Filename)
  | lock (s : Session) (allFiles : List Filename)
  | createTable (s : Session) (allFiles : List Filename)
  | readdir (s : Session) (allFiles : List Filename)
  | select (s : Session) (allFiles : List Filename)
  /-- The top of the loop. -/
  | next (s : Session) (p : Progress)
  /-- The file has been read. -/
  | begin_ (s : Session) (p : Progress) (file : Filename)
  | query (s : Session) (p : Progress) (file : Filename) (tx : Tx)
  | insert (s : Session) (p : Progress) (file : Filename) (tx : Tx)
  | commit (s : Session) (p : Progress) (file : Filename) (tx : Tx)
  | rollback (s : Session) (p : Progress)
  | unlock (s : Session) (ending : Ending)
  /-- The connection is lost, and the database has not ended the session. -/
  | severed (s : Session) (ending : Ending)
  | done (ending : Ending)

inductive Outcome where
  | ok
  /-- It fails, without effect. -/
  | error
  /-- The connection is lost, or the run crashes, before or after it takes effect. -/
  | lost (effect : Bool)
deriving DecidableEq

structure Input where
  outcome : Outcome
  /-- The session that `connect` finds. -/
  session : Session

/-- `pg_advisory_lock`, none while another session holds the lock. -/
def Db.acquire (db : Db) (s : Session) : Option Db :=
  match db.lock with
  | none => some { db with lock := some (s, 1) }
  | some (owner, n) => if owner = s then some { db with lock := some (s, n + 1) } else none

/-- `pg_advisory_unlock` -/
def Db.unlock (db : Db) (s : Session) : Db :=
  match db.lock with
  | some (owner, n) =>
    if owner = s then { db with lock := if n ≤ 1 then none else some (s, n - 1) } else db
  | none => db

/-- The end of a session: its locks are released. -/
def Db.close (db : Db) (s : Session) : Db :=
  if db.lock.any (·.1 = s) then { db with lock := none } else db

/-- `client.release()`, or the removal of the client of a session that has ended. -/
def Db.release (db : Db) (s : Session) : Db := { db with taken := Function.update db.taken s none }

def Db.commit (db : Db) (tx : Tx) : Db :=
  { db with applied := db.applied ++ tx.sql, recorded := db.recorded ++ tx.rows }

/-- The step after the SQL of the first file that was left to do has been committed. -/
def Progress.applied (p : Progress) (file : Filename) : Progress :=
  { p with newlyApplied := p.newlyApplied ++ [file], todo := p.todo.tail }

/-- A statement that leaves the tables as they are: where the run stands if it succeeds, fails, or loses
its connection. -/
def attempt (db : Db) (ok error lost : Pc) : Outcome → Option (Pc × Db × List Filename)
  | .ok => some (ok, db, [])
  | .error => some (error, db, [])
  | .lost _ => some (lost, db, [])

/-- One step.  The events are the files whose SQL is committed. -/
def step (i : Nat) (x : Input) (pc : Pc) (db : Db) : Option (Pc × Db × List Filename) :=
  match pc with
  | .connect allFiles =>
    match x.outcome with
    | .ok =>
      if (db.taken x.session).isSome then none
      else
        some (.lock x.session allFiles,
          { db with taken := Function.update db.taken x.session (some i) }, [])
    | _ => some (.done .early, db, [])
  | .lock s allFiles =>
    match x.outcome with
    | .ok => (db.acquire s).map (.createTable s allFiles, ·, [])
    | .error => some (.unlock s .early, db, [])
    | .lost false => some (.severed s .early, db, [])
    | .lost true => (db.acquire s).map (.severed s .early, ·, [])
  | .createTable s allFiles =>
    match x.outcome with
    | .ok => some (.readdir s allFiles, { db with created := true }, [])
    | .error => some (.unlock s .early, db, [])
    | .lost effect => some (.severed s .early, { db with created := db.created || effect }, [])
  | .readdir s allFiles =>
    attempt db (.select s allFiles) (.unlock s .early) (.severed s .early) x.outcome
  | .select s allFiles =>
    if db.created then
      attempt db (.next s ⟨allFiles, db.recorded, [], sqlFiles allFiles⟩) (.unlock s .early)
        (.severed s .early) x.outcome
    else some (.unlock s .early, db, [])
  | .next s p =>
    match p.todo with
    | [] => some (.unlock s (.resolved p), db, [])
    | file :: rest =>
      if file ∈ p.alreadyApplied then some (.next s { p with todo := rest }, db, [])
      else
        attempt db (.begin_ s p file) (.unlock s (.failed p)) (.severed s (.failed p)) x.outcome
  | .begin_ s p file =>
    attempt db (.query s p file ⟨[], []⟩) (.unlock s (.failed p)) (.severed s (.failed p)) x.outcome
  | .query s p file tx =>
    attempt db (.insert s p file { tx with sql := tx.sql ++ [file] }) (.rollback s p)
      (.severed s (.failed p)) x.outcome
  | .insert s p file tx =>
    -- the file name is the primary key
    if file ∈ db.recorded then
      attempt db (.rollback s p) (.rollback s p) (.severed s (.failed p)) x.outcome
    else
      attempt db (.commit s p file { tx with rows := tx.rows ++ [file] }) (.rollback s p)
        (.severed s (.failed p)) x.outcome
  | .commit s p file tx =>
    match x.outcome with
    | .ok => some (.next s (p.applied file), db.commit tx, tx.sql.reverse)
    | .error => some (.rollback s p, db, [])
    | .lost false => some (.severed s (.failed p), db, [])
    | .lost true => some (.severed s (.lost (p.applied file)), db.commit tx, tx.sql.reverse)
  | .rollback s p =>
    -- a `ROLLBACK` fails with the connection only
    match x.outcome with
    | .ok => some (.unlock s (.failed p), db, [])
    | .error => none
    | .lost _ => some (.severed s (.failed p), db, [])
  | .unlock s ending =>
    match x.outcome with
    | .ok => some (.done ending, (db.unlock s).release s, [])
    | .error => some (.done ending, db.release s, [])
    | .lost false => some (.severed s ending, db, [])
    | .lost true => some (.severed s ending, db.unlock s, [])
  | .severed s ending => some (.done ending, (db.close s).release s, [])
  | .done _ => none

/-- A request is what `readdir` finds. -/
def program : Program (List Filename) Input Pc Db Filename := ⟨.connect, step⟩

/-! ## The order of the files -/

/-- The files are sorted, and are those of the directory that end in `.sql`. -/
theorem sqlFiles_sorted (allFiles : List Filename) :
    (sqlFiles allFiles).Pairwise Filename.Le ∧ (sqlFiles allFiles).Perm (allFiles.filter isSql) := by
  constructor
  · exact List.pairwise_insertionSort _ _
  · exact List.perm_insertionSort _ _

/-! ## Runs -/

def Db.LockedBy (db : Db) (s : Session) : Prop := ∃ n, db.lock = some (s, n)

/-- What run `i` has committed is the first part of what was pending. -/
structure Progress.Holds (p : Progress) (i : Nat) (t : Trace Filename) : Prop where
  pending : pending p.allFiles p.alreadyApplied =
    p.newlyApplied ++ p.todo.filter (· ∉ p.alreadyApplied)
  committed : (mine i t).reverse = p.newlyApplied

/-- The run that holds the lock knows all rows. -/
def Progress.Current (p : Progress) (s : Session) (db : Db) : Prop :=
  db.LockedBy s ∧ db.recorded = p.alreadyApplied ++ p.newlyApplied

/-- The run is at a file that was pending. -/
def Progress.At (p : Progress) (file : Filename) : Prop :=
  p.todo.head? = some file ∧ file ∉ p.alreadyApplied

def Ending.progress? : Ending → Option Progress
  | early => none
  | resolved p | failed p | lost p => some p

/-- What holds of a run that has ended, or is about to. -/
def Ending.Holds (i : Nat) (t : Trace Filename) : Ending → Prop
  | early => mine i t = []
  | resolved p => p.Holds i t ∧ p.todo = []
  | failed p => p.Holds i t ∧ ∃ file, p.At file
  | lost p => p.Holds i t

def Ending.Current (ending : Ending) (s : Session) (db : Db) : Prop :=
  ∀ p ∈ ending.progress?, p.Current s db

/-- What holds of a run that has read the rows. -/
def Inside (i : Nat) (s : Session) (p : Progress) (db : Db) (t : Trace Filename) : Prop :=
  p.Current s db ∧ p.Holds i t

/-- The session that a run has checked out, and what holds of the run. -/
def Pc.session? : Pc → Option Session
  | .connect _ | .done _ => none
  | .lock s _ | .createTable s _ | .readdir s _ | .select s _ | .next s _ | .begin_ s _ _ | .query s _ _ _
  | .insert s _ _ _ | .commit s _ _ _ | .rollback s _ | .unlock s _ | .severed s _ => some s

def Pc.Holds (i : Nat) (db : Db) (t : Trace Filename) : Pc → Prop
  | .connect _ | .lock .. => mine i t = []
  | .createTable s _ | .readdir s _ | .select s _ => db.LockedBy s ∧ mine i t = []
  | .next s p => Inside i s p db t
  | .begin_ s p file => Inside i s p db t ∧ p.At file
  | .query s p file tx => Inside i s p db t ∧ p.At file ∧ tx = ⟨[], []⟩
  | .insert s p file tx => Inside i s p db t ∧ p.At file ∧ tx = ⟨[file], []⟩
  | .commit s p file tx =>
    Inside i s p db t ∧ p.At file ∧ tx = ⟨[file], [file]⟩ ∧ file ∉ db.recorded
  | .rollback s p => Inside i s p db t ∧ ∃ file, p.At file
  | .unlock s ending => ending.Current s db ∧ ending.Holds i t
  -- its `pg_advisory_unlock` may have taken effect
  | .severed s ending => (db.LockedBy s → ending.Current s db) ∧ ending.Holds i t
  | .done ending => ending.Holds i t

/-- The assertion of a thread. -/
def Thread (i : Nat) (pc : Pc) (db : Db) (t : Trace Filename) : Prop :=
  (∀ s ∈ pc.session?, db.taken s = some i) ∧ pc.Holds i db t

/-- The SQL of a file is committed iff its name is recorded, and once. -/
structure Consistent (db : Db) (t : Trace Filename) : Prop where
  atomic : db.applied = db.recorded
  once : db.recorded.Nodup
  traced : (t.map Prod.snd).reverse = db.applied

/-! ### What a step leaves alone -/

/-- The sessions of other runs stay theirs; while one of them holds the lock, nothing is recorded. -/
def Frame (i : Nat) (db db' : Db) : Prop :=
  ∀ j s, j ≠ i → db.taken s = some j → db'.taken s = some j ∧ (db'.LockedBy s ↔ db.LockedBy s) ∧
    (db.LockedBy s → db'.recorded = db.recorded)

section Frame

variable {i : Nat} {db db' : Db} {s : Session}

theorem Frame.refl (i : Nat) (db : Db) : Frame i db db := fun _ _ _ h ↦ ⟨h, Iff.rfl, fun _ ↦ rfl⟩

theorem ne_of_taken {j : Nat} {s' : Session} (hj : j ≠ i) (h : db.taken s = some i)
    (h' : db.taken s' = some j) : s' ≠ s := by
  rintro rfl
  exact hj (Option.some.inj (h'.symm.trans h))

theorem Frame.take (h : db.taken s = none) :
    Frame i db { db with taken := Function.update db.taken s (some i) } := by
  intro j s' hj htaken
  refine ⟨?_, Iff.rfl, fun _ ↦ rfl⟩
  have hne : s' ≠ s := by
    rintro rfl
    rw [h] at htaken
    cases htaken
  exact (Function.update_of_ne hne _ _).trans htaken

theorem Frame.release (h : db.taken s = some i) : Frame i db (db.release s) := by
  intro j s' hj htaken
  refine ⟨?_, Iff.rfl, fun _ ↦ rfl⟩
  exact (Function.update_of_ne (ne_of_taken hj h htaken) _ _).trans htaken

/-- A change of the lock that matters to a session only. -/
theorem Frame.lock {lock : Option (Session × Nat)} (h : db.taken s = some i)
    (hlock : ∀ s' n, s' ≠ s → (lock = some (s', n) ↔ db.lock = some (s', n))) :
    Frame i db { db with lock := lock } := by
  intro j s' hj htaken
  exact ⟨htaken, exists_congr fun n ↦ hlock s' n (ne_of_taken hj h htaken), fun _ ↦ rfl⟩

theorem Frame.acquire (h : db.taken s = some i) (hdb : db.acquire s = some db') : Frame i db db' := by
  unfold Db.acquire at hdb
  split at hdb
  · rename_i hfree
    cases hdb
    refine .lock h fun s' n hne ↦ ?_
    simp [hfree, hne.symm]
  · rename_i owner n hlock
    split at hdb
    · rename_i howner
      cases hdb
      refine .lock h fun s' n' hne ↦ ?_
      simp [hlock, howner, hne.symm]
    · cases hdb

theorem Frame.unlock (h : db.taken s = some i) : Frame i db (db.unlock s) := by
  unfold Db.unlock
  split
  · rename_i owner n hlock
    split
    · rename_i howner
      refine .lock h fun s' n' hne ↦ ?_
      rw [hlock, howner]
      split <;> simp [hne.symm]
    · exact .refl i db
  · exact .refl i db

theorem Frame.close (h : db.taken s = some i) : Frame i db (db.close s) := by
  unfold Db.close
  split
  · rename_i howner
    refine .lock h fun s' n hne ↦ ?_
    constructor
    · intro hnone
      cases hnone
    · intro hlock
      rw [hlock] at howner
      exact absurd (of_decide_eq_true howner) hne
  · exact .refl i db

/-- The run that commits holds the lock itself. -/
theorem Frame.commit (h : db.taken s = some i) (hlocked : db.LockedBy s) (tx : Tx) :
    Frame i db (db.commit tx) := by
  intro j s' hj htaken
  refine ⟨htaken, Iff.rfl, ?_⟩
  rintro ⟨n, hn⟩
  obtain ⟨n', hlock⟩ := hlocked
  cases hlock.symm.trans hn
  exact absurd rfl (ne_of_taken hj h htaken)

theorem Frame.trans {db'' : Db} (h : Frame i db db') (h' : Frame i db' db'') : Frame i db db'' := by
  intro j s hj htaken
  obtain ⟨htaken', hlocked, hrecorded⟩ := h j s hj htaken
  obtain ⟨htaken'', hlocked', hrecorded'⟩ := h' j s hj htaken'
  exact ⟨htaken'', hlocked'.trans hlocked,
    fun hl ↦ (hrecorded' (hlocked.mpr hl)).trans (hrecorded hl)⟩

/-- What another run knows stays true. -/
theorem Frame.thread {j : Nat} {pc : Pc} {t : Trace Filename} {es : List Filename} (h : Frame i db db')
    (hj : j ≠ i) (ht : Thread j pc db t) : Thread j pc db' (tag i es ++ t) := by
  obtain ⟨htaken, hholds⟩ := ht
  have hmine : mine j (tag i es ++ t) = mine j t := mine_tag_append_of_ne hj.symm es t
  have holds : ∀ {p : Progress}, p.Holds j t → p.Holds j (tag i es ++ t) := by
    rintro p ⟨hpending, hcommitted⟩
    exact ⟨hpending, by rw [hmine]; exact hcommitted⟩
  have current : ∀ {s : Session} {p : Progress}, pc.session? = some s → p.Current s db →
      p.Current s db' := by
    rintro s p hs ⟨hlocked, hrecorded⟩
    obtain ⟨-, hlocked', hsame⟩ := h j s hj (htaken s hs)
    exact ⟨hlocked'.mpr hlocked, (hsame hlocked).trans hrecorded⟩
  have inside : ∀ {s : Session} {p : Progress}, pc.session? = some s → Inside j s p db t →
      Inside j s p db' (tag i es ++ t) := fun hs hin ↦ ⟨current hs hin.1, holds hin.2⟩
  have ends : ∀ {ending : Ending}, ending.Holds j t → ending.Holds j (tag i es ++ t) := by
    intro ending he
    cases ending with
    | early => exact hmine.trans he
    | resolved p | failed p => exact ⟨holds he.1, he.2⟩
    | lost p => exact holds he
  refine ⟨fun s hs ↦ (h j s hj (htaken s hs)).1, ?_⟩
  cases pc with
  | connect | lock => exact hmine.trans hholds
  | createTable s | readdir s | select s =>
    exact ⟨(h j s hj (htaken s rfl)).2.1.mpr hholds.1, hmine.trans hholds.2⟩
  | next s p => exact inside rfl hholds
  | begin_ | query | insert | rollback => exact ⟨inside rfl hholds.1, hholds.2⟩
  | commit s p file tx =>
    obtain ⟨hin, hat, htx, hnew⟩ := hholds
    refine ⟨inside rfl hin, hat, htx, ?_⟩
    rw [(h j s hj (htaken s rfl)).2.2 hin.1.1]
    exact hnew
  | unlock s ending => exact ⟨fun p hp ↦ current rfl (hholds.1 p hp), ends hholds.2⟩
  | severed s ending =>
    refine ⟨fun hlocked p hp ↦ ?_, ends hholds.2⟩
    have hbefore : db.LockedBy s := (h j s hj (htaken s rfl)).2.1.mp hlocked
    exact current rfl (hholds.1 hbefore p hp)
  | done ending => exact ends hholds

end Frame

/-! ### What a step keeps -/

/-- What a step of run `i` establishes. -/
structure Kept (i : Nat) (db : Db) (t : Trace Filename) (pc' : Pc) (db' : Db) (es : List Filename) :
    Prop where
  frame : Frame i db db'
  consistent : Consistent db' (tag i es ++ t)
  thread : Thread i pc' db' (tag i es ++ t)

section Step

variable {i : Nat} {db db' : Db} {s : Session} {t : Trace Filename} {pc' : Pc} {es : List Filename}
  {p : Progress} {file : Filename}

theorem Db.acquire_eq (h : db.acquire s = some db') : ∃ n, db' = { db with lock := some (s, n) } := by
  unfold Db.acquire at h
  split at h
  · exact ⟨1, (Option.some.inj h).symm⟩
  · rename_i owner n hlock
    split at h
    · exact ⟨n + 1, (Option.some.inj h).symm⟩
    · cases h

theorem Db.unlock_eq (db : Db) (s : Session) : ∃ lock, db.unlock s = { db with lock := lock } := by
  unfold Db.unlock
  split
  · split
    · exact ⟨_, rfl⟩
    · exact ⟨_, rfl⟩
  · exact ⟨_, rfl⟩

theorem Db.close_eq (db : Db) (s : Session) : ∃ lock, db.close s = { db with lock := lock } := by
  unfold Db.close
  split
  · exact ⟨_, rfl⟩
  · exact ⟨_, rfl⟩

theorem Consistent.of_eq (h : Consistent db t) (happlied : db'.applied = db.applied)
    (hrecorded : db'.recorded = db.recorded) : Consistent db' t := by
  obtain ⟨hatomic, honce, htraced⟩ := h
  constructor
  · rw [happlied, hrecorded]
    exact hatomic
  · rw [hrecorded]
    exact honce
  · rw [happlied]
    exact htraced

theorem Thread.of_taken {pc : Pc} (htaken : db.taken s = some i) (hs : pc.session? = some s)
    (h : pc.Holds i db t) : Thread i pc db t := by
  refine ⟨fun s' hs' ↦ ?_, h⟩
  cases hs.symm.trans hs'
  exact htaken

theorem Thread.done {ending : Ending} (h : ending.Holds i t) : Thread i (.done ending) db t := by
  refine ⟨fun s hs ↦ ?_, h⟩
  cases hs

theorem Ending.Current.early (s : Session) (db : Db) : Ending.early.Current s db := by
  intro p hp
  cases hp

theorem Thread.unlock_early (htaken : db.taken s = some i) (ht : mine i t = []) :
    Thread i (.unlock s .early) db t := .of_taken htaken rfl ⟨.early s db, ht⟩

theorem Thread.severed_early (htaken : db.taken s = some i) (ht : mine i t = []) :
    Thread i (.severed s .early) db t := .of_taken htaken rfl ⟨fun _ ↦ .early s db, ht⟩

theorem Inside.current {ending : Ending} (hin : Inside i s p db t) (he : ending.progress? = some p) :
    ending.Current s db := by
  intro p' hp'
  cases he.symm.trans hp'
  exact hin.1

/-- A run that fails at a file, with its connection or without it. -/
theorem Inside.unlock (hin : Inside i s p db t) (hat : ∃ file, p.At file) (htaken : db.taken s = some i) :
    Thread i (.unlock s (.failed p)) db t := .of_taken htaken rfl ⟨hin.current rfl, hin.2, hat⟩

theorem Inside.severed (hin : Inside i s p db t) (hat : ∃ file, p.At file)
    (htaken : db.taken s = some i) : Thread i (.severed s (.failed p)) db t :=
  .of_taken htaken rfl ⟨fun _ ↦ hin.current rfl, hin.2, hat⟩

theorem Inside.rollback (hin : Inside i s p db t) (hat : ∃ file, p.At file)
    (htaken : db.taken s = some i) : Thread i (.rollback s p) db t := .of_taken htaken rfl ⟨hin, hat⟩

/-- The loop skips a file that is recorded. -/
theorem Inside.skip {rest : List Filename} (hin : Inside i s p db t) (htodo : p.todo = file :: rest)
    (hfile : file ∈ p.alreadyApplied) : Inside i s { p with todo := rest } db t := by
  obtain ⟨hcurrent, hpending, hcommitted⟩ := hin
  refine ⟨hcurrent, ?_, hcommitted⟩
  rw [hpending, htodo, List.filter_cons_of_neg (by simpa using hfile)]

/-- The loop when the SQL and the row of a file are committed. -/
theorem Inside.commit (hin : Inside i s p db t) (hat : p.At file) :
    Inside i s (p.applied file) (db.commit ⟨[file], [file]⟩) (tag i [file] ++ t) := by
  obtain ⟨⟨hlocked, hrecorded⟩, hpending, hcommitted⟩ := hin
  obtain ⟨hhead, hnew⟩ := hat
  obtain ⟨rest, htodo⟩ := List.head?_eq_some_iff.mp hhead
  refine ⟨⟨hlocked, ?_⟩, ?_, ?_⟩
  · change db.recorded ++ [file] = p.alreadyApplied ++ (p.newlyApplied ++ [file])
    rw [hrecorded, List.append_assoc]
  · change pending p.allFiles p.alreadyApplied
      = p.newlyApplied ++ [file] ++ p.todo.tail.filter (· ∉ p.alreadyApplied)
    rw [hpending, htodo, List.filter_cons_of_pos (by simpa using hnew), List.tail_cons,
      List.append_assoc, List.singleton_append]
  · change (mine i (tag i [file] ++ t)).reverse = p.newlyApplied ++ [file]
    rw [mine_tag_append, List.reverse_append, hcommitted, List.reverse_singleton]

theorem Consistent.commit (h : Consistent db t) (hnew : file ∉ db.recorded) :
    Consistent (db.commit ⟨[file], [file]⟩) (tag i [file] ++ t) := by
  obtain ⟨hatomic, honce, htraced⟩ := h
  constructor
  · change db.applied ++ [file] = db.recorded ++ [file]
    rw [hatomic]
  · exact List.nodup_append.mpr ⟨honce, List.nodup_singleton file, by
      intro a ha b hb heq
      rw [List.mem_singleton] at hb
      exact hnew (hb ▸ heq ▸ ha)⟩
  · change ((i, file).2 :: t.map Prod.snd).reverse = db.applied ++ [file]
    rw [List.reverse_cons, htraced]

theorem Kept.stay (hdb : Consistent db t) (h : Thread i pc' db t) : Kept i db t pc' db [] :=
  ⟨.refl i db, hdb, h⟩

theorem Kept.attempt {ok error lost : Pc} {outcome : Outcome} (hdb : Consistent db t)
    (hok : Thread i ok db t) (herror : Thread i error db t) (hlost : Thread i lost db t)
    (h : attempt db ok error lost outcome = some (pc', db', es)) : Kept i db t pc' db' es := by
  cases outcome with
  | ok =>
    cases h
    exact .stay hdb hok
  | error =>
    cases h
    exact .stay hdb herror
  | lost effect =>
    cases h
    exact .stay hdb hlost

/-- A step of a run that has not read the rows. -/
theorem kept_acquire (hdb : Consistent db t) (htaken : db.taken s = some i) (hacq : db.acquire s = some db')
    (h : ∀ n, Pc.Holds i { db with lock := some (s, n) } t pc') (hs : pc'.session? = some s) :
    Kept i db t pc' db' [] := by
  have hframe := Frame.acquire htaken hacq
  obtain ⟨n, rfl⟩ := Db.acquire_eq hacq
  exact ⟨hframe, hdb.of_eq rfl rfl, .of_taken htaken hs (h n)⟩

theorem kept_unlock {x : Input} {ending : Ending} (hdb : Consistent db t)
    (hthread : Thread i (.unlock s ending) db t) (h : step i x (.unlock s ending) db = some (pc', db', es)) :
    Kept i db t pc' db' es := by
  obtain ⟨htaken, hcurrent, hends⟩ := hthread
  have htaken : db.taken s = some i := htaken s rfl
  have hframe : Frame i db (db.unlock s) := .unlock htaken
  obtain ⟨lock, hlock⟩ := db.unlock_eq s
  simp only [step] at h
  split at h
  · cases h
    rw [hlock] at hframe ⊢
    exact ⟨hframe.trans (.release htaken), hdb.of_eq rfl rfl, .done hends⟩
  · cases h
    exact ⟨.release htaken, hdb.of_eq rfl rfl, .done hends⟩
  · cases h
    exact .stay hdb (.of_taken htaken rfl ⟨fun _ ↦ hcurrent, hends⟩)
  · cases h
    rw [hlock] at hframe ⊢
    refine ⟨hframe, hdb.of_eq rfl rfl, .of_taken htaken rfl ⟨fun hlocked p hp ↦ ?_, hends⟩⟩
    exact ⟨hlocked, (hcurrent p hp).2⟩

theorem kept_commit {x : Input} {tx : Tx} (hdb : Consistent db t)
    (hthread : Thread i (.commit s p file tx) db t)
    (h : step i x (.commit s p file tx) db = some (pc', db', es)) : Kept i db t pc' db' es := by
  obtain ⟨htaken, hin, hat, rfl, hnew⟩ := hthread
  have htaken : db.taken s = some i := htaken s rfl
  have hframe := Frame.commit htaken hin.1.1 ⟨[file], [file]⟩
  have hafter := hin.commit hat
  simp only [step] at h
  split at h
  · cases h
    exact ⟨hframe, hdb.commit hnew, .of_taken htaken rfl hafter⟩
  · cases h
    exact .stay hdb (hin.rollback ⟨file, hat⟩ htaken)
  · cases h
    exact .stay hdb (hin.severed ⟨file, hat⟩ htaken)
  · cases h
    exact ⟨hframe, hdb.commit hnew, .of_taken htaken rfl ⟨fun _ ↦ hafter.current rfl, hafter.2⟩⟩

theorem kept_next {x : Input} (hdb : Consistent db t) (hthread : Thread i (.next s p) db t)
    (h : step i x (.next s p) db = some (pc', db', es)) : Kept i db t pc' db' es := by
  obtain ⟨htaken, hin⟩ := hthread
  have htaken : db.taken s = some i := htaken s rfl
  simp only [step] at h
  split at h
  · rename_i htodo
    cases h
    exact .stay hdb (.of_taken htaken rfl ⟨Inside.current hin rfl, hin.2, htodo⟩)
  · rename_i file rest htodo
    split at h
    · rename_i hfile
      cases h
      exact .stay hdb (.of_taken htaken rfl (Inside.skip hin htodo hfile))
    · rename_i hfile
      have hat : p.At file := ⟨List.head?_eq_some_iff.mpr ⟨rest, htodo⟩, hfile⟩
      refine .attempt hdb ?_ (Inside.unlock hin ⟨file, hat⟩ htaken)
        (Inside.severed hin ⟨file, hat⟩ htaken) h
      exact .of_taken htaken rfl ⟨hin, hat⟩

/-- A step keeps the invariant, the assertion of its run and those of the others. -/
theorem step_kept {x : Input} {pc : Pc} (hdb : Consistent db t) (hthread : Thread i pc db t)
    (h : step i x pc db = some (pc', db', es)) : Kept i db t pc' db' es := by
  cases pc with
  | connect allFiles =>
    obtain ⟨-, hnone⟩ := hthread
    simp only [step] at h
    split at h
    · split at h
      · cases h
      · rename_i hfree
        cases h
        rw [Option.not_isSome_iff_eq_none] at hfree
        exact ⟨.take hfree, hdb.of_eq rfl rfl, .of_taken (Function.update_self _ _ _) rfl hnone⟩
    · cases h
      exact .stay hdb (.done hnone)
  | lock s allFiles =>
    obtain ⟨htaken, hnone⟩ := hthread
    have htaken : db.taken s = some i := htaken s rfl
    simp only [step] at h
    split at h
    · obtain ⟨db₁, hacq, heq⟩ := Option.map_eq_some_iff.mp h
      cases heq
      exact kept_acquire hdb htaken hacq (fun n ↦ ⟨⟨n, rfl⟩, hnone⟩) rfl
    · cases h
      exact .stay hdb (.unlock_early htaken hnone)
    · cases h
      exact .stay hdb (.severed_early htaken hnone)
    · obtain ⟨db₁, hacq, heq⟩ := Option.map_eq_some_iff.mp h
      cases heq
      exact kept_acquire hdb htaken hacq (fun n ↦ ⟨fun _ ↦ .early s _, hnone⟩) rfl
  | createTable s allFiles =>
    obtain ⟨htaken, hlocked, hnone⟩ := hthread
    have htaken : db.taken s = some i := htaken s rfl
    have hframe (created : Bool) : Frame i db { db with created := created } :=
      fun _ _ _ h ↦ ⟨h, Iff.rfl, fun _ ↦ rfl⟩
    simp only [step] at h
    split at h
    · cases h
      exact ⟨hframe _, hdb.of_eq rfl rfl, .of_taken htaken rfl ⟨hlocked, hnone⟩⟩
    · cases h
      exact .stay hdb (.unlock_early htaken hnone)
    · cases h
      exact ⟨hframe _, hdb.of_eq rfl rfl, .severed_early htaken hnone⟩
  | readdir s allFiles =>
    obtain ⟨htaken, hlocked, hnone⟩ := hthread
    have htaken : db.taken s = some i := htaken s rfl
    refine .attempt hdb ?_ (.unlock_early htaken hnone) (.severed_early htaken hnone) h
    exact .of_taken htaken rfl ⟨hlocked, hnone⟩
  | select s allFiles =>
    obtain ⟨htaken, hlocked, hnone⟩ := hthread
    have htaken : db.taken s = some i := htaken s rfl
    simp only [step] at h
    split at h
    · refine .attempt hdb ?_ (.unlock_early htaken hnone) (.severed_early htaken hnone) h
      have hcommitted : (mine i t).reverse = [] := by rw [hnone, List.reverse_nil]
      exact .of_taken htaken rfl ⟨⟨hlocked, (List.append_nil _).symm⟩, rfl, hcommitted⟩
    · cases h
      exact .stay hdb (.unlock_early htaken hnone)
  | next s p => exact kept_next hdb hthread h
  | begin_ s p file =>
    obtain ⟨htaken, hin, hat⟩ := hthread
    have htaken : db.taken s = some i := htaken s rfl
    refine .attempt hdb ?_ (hin.unlock ⟨file, hat⟩ htaken) (hin.severed ⟨file, hat⟩ htaken) h
    exact .of_taken htaken rfl ⟨hin, hat, rfl⟩
  | query s p file tx =>
    obtain ⟨htaken, hin, hat, rfl⟩ := hthread
    have htaken : db.taken s = some i := htaken s rfl
    refine .attempt hdb ?_ (hin.rollback ⟨file, hat⟩ htaken) (hin.severed ⟨file, hat⟩ htaken) h
    exact .of_taken htaken rfl ⟨hin, hat, rfl⟩
  | insert s p file tx =>
    obtain ⟨htaken, hin, hat, rfl⟩ := hthread
    have htaken : db.taken s = some i := htaken s rfl
    have hrollback := hin.rollback ⟨file, hat⟩ htaken
    have hsevered := hin.severed ⟨file, hat⟩ htaken
    simp only [step] at h
    split at h
    · exact .attempt hdb hrollback hrollback hsevered h
    · rename_i hnew
      refine .attempt hdb ?_ hrollback hsevered h
      exact .of_taken htaken rfl ⟨hin, hat, rfl, hnew⟩
  | commit s p file tx => exact kept_commit hdb hthread h
  | rollback s p =>
    obtain ⟨htaken, hin, hat⟩ := hthread
    have htaken : db.taken s = some i := htaken s rfl
    simp only [step] at h
    split at h
    · cases h
      exact .stay hdb (hin.unlock hat htaken)
    · cases h
    · cases h
      exact .stay hdb (hin.severed hat htaken)
  | unlock s ending => exact kept_unlock hdb hthread h
  | severed s ending =>
    obtain ⟨htaken, -, hends⟩ := hthread
    have htaken : db.taken s = some i := htaken s rfl
    have hframe : Frame i db (db.close s) := .close htaken
    obtain ⟨lock, hlock⟩ := db.close_eq s
    cases h
    rw [hlock] at hframe ⊢
    exact ⟨hframe.trans (.release htaken), hdb.of_eq rfl rfl, .done hends⟩
  | done ending => cases h

end Step

theorem keeps : Program.Keeps program .always Consistent Thread where
  born := by
    intro i allFiles db t _ hnone
    refine ⟨fun s hs ↦ (by cases hs), ?_⟩
    change mine i t = []
    rw [List.eq_nil_iff_forall_not_mem]
    intro file hfile
    exact hnone _ (mem_mine.mp hfile) rfl
  own := by
    intro i x pc db t pc' db' es _ hdb hthread hstep
    have hkept := step_kept hdb hthread hstep
    exact ⟨hkept.consistent, hkept.thread⟩
  others := by
    intro i x pc db t pc' db' es j pc₂ hij _ hdb hthread hstep hthread₂
    exact (step_kept hdb hthread hstep).frame.thread hij.symm hthread₂

theorem consistent_initial : Consistent Db.initial [] := ⟨rfl, List.nodup_nil, rfl⟩

/-! ## What holds of a run -/

/-- How far a run has come that has read the rows. -/
def Pc.progress? : Pc → Option Progress
  | .connect _ | .lock .. | .createTable .. | .readdir .. | .select .. => none
  | .next _ p | .begin_ _ p _ | .query _ p _ _ | .insert _ p _ _ | .commit _ p _ _ | .rollback _ p => some p
  | .unlock _ ending | .severed _ ending | .done ending => ending.progress?

def Pc.Severed : Pc → Prop
  | .severed .. => True
  | _ => False

/-- The run has dealt with all files. -/
def Pc.Resolved : Pc → Prop
  | .unlock _ (.resolved _) | .severed _ (.resolved _) | .done (.resolved _) => True
  | _ => False

/-- The run has failed at a file. -/
def Pc.Failed : Pc → Prop
  | .rollback .. | .unlock _ (.failed _) | .severed _ (.failed _) | .done (.failed _) => True
  | _ => False

section Run

variable {i : Nat} {pc : Pc} {db : Db} {t : Trace Filename} {p : Progress} {s : Session}

theorem Ending.Holds.progress {ending : Ending} (h : ending.Holds i t) (hp : ending.progress? = some p) :
    p.Holds i t := by
  cases ending with
  | early => cases hp
  | resolved | failed =>
    cases hp
    exact h.1
  | lost =>
    cases hp
    exact h

theorem Thread.progress (h : Thread i pc db t) (hp : pc.progress? = some p) : p.Holds i t := by
  obtain ⟨-, hholds⟩ := h
  cases pc with
  | connect | lock | createTable | readdir | select => cases hp
  | next =>
    cases hp
    exact hholds.2
  | begin_ | query | insert | commit | rollback =>
    cases hp
    exact hholds.1.2
  | unlock | severed => exact hholds.2.progress hp
  | done => exact hholds.progress hp

theorem Thread.idle (h : Thread i pc db t) (hp : pc.progress? = none) : mine i t = [] := by
  have early {ending : Ending} (he : ending.Holds i t) (hp : ending.progress? = none) : mine i t = [] := by
    cases ending with
    | early => exact he
    | resolved | failed | lost => cases hp
  obtain ⟨-, hholds⟩ := h
  cases pc with
  | connect | lock => exact hholds
  | createTable | readdir | select => exact hholds.2
  | next | begin_ | query | insert | commit | rollback => cases hp
  | unlock | severed => exact early hholds.2 hp
  | done => exact early hholds hp

theorem Thread.current (h : Thread i pc db t) (hp : pc.progress? = some p) (hs : pc.session? = some s)
    (halive : pc.Severed → db.LockedBy s) : p.Current s db := by
  obtain ⟨-, hholds⟩ := h
  cases pc with
  | connect | lock | createTable | readdir | select => cases hp
  | next =>
    cases hp
    cases hs
    exact hholds.1
  | begin_ | query | insert | commit | rollback =>
    cases hp
    cases hs
    exact hholds.1.1
  | unlock =>
    cases hs
    exact hholds.1 p hp
  | severed =>
    cases hs
    exact hholds.1 (halive trivial) p hp
  | done => cases hs

theorem Thread.resolved (h : Thread i pc db t) (hp : pc.progress? = some p) (hdone : pc.Resolved) :
    p.todo = [] := by
  obtain ⟨-, hholds⟩ := h
  have ends {ending : Ending} (he : ending.Holds i t) (hp : ending.progress? = some p)
      (hdone : Pc.Resolved (.done ending)) : p.todo = [] := by
    cases ending with
    | early | failed | lost => cases hdone
    | resolved =>
      cases hp
      exact he.2
  cases pc with
  | unlock s ending | severed s ending =>
    refine ends hholds.2 hp ?_
    cases ending with
    | early | failed | lost => cases hdone
    | resolved => exact hdone
  | done ending => exact ends hholds hp hdone
  | _ => cases hdone

theorem Thread.failed (h : Thread i pc db t) (hp : pc.progress? = some p) (hfailed : pc.Failed) :
    ∃ file, p.At file := by
  obtain ⟨-, hholds⟩ := h
  have ends {ending : Ending} (he : ending.Holds i t) (hp : ending.progress? = some p)
      (hfailed : Pc.Failed (.done ending)) : ∃ file, p.At file := by
    cases ending with
    | early | resolved | lost => cases hfailed
    | failed =>
      cases hp
      exact he.2
  cases pc with
  | rollback =>
    cases hp
    exact hholds.2
  | unlock s ending | severed s ending =>
    refine ends hholds.2 hp ?_
    cases ending with
    | early | resolved | lost => cases hfailed
    | failed => exact hfailed
  | done ending => exact ends hholds hp hfailed
  | _ => cases hfailed

theorem pending_sorted (allFiles rows : List Filename) :
    (pending allFiles rows).Pairwise Filename.Le :=
  (sqlFiles_sorted allFiles).1.sublist List.filter_sublist

theorem pending_nodup {allFiles : List Filename} (h : allFiles.Nodup) (rows : List Filename) :
    (pending allFiles rows).Nodup :=
  ((sqlFiles_sorted allFiles).2.nodup_iff.mpr (h.filter _)).filter _

/-- When what was pending first has been recorded, the rest is pending. -/
theorem pending_append {allFiles rows newlyApplied rest : List Filename} (hfiles : allFiles.Nodup)
    (h : pending allFiles rows = newlyApplied ++ rest) : pending allFiles (rows ++ newlyApplied) = rest := by
  have hnodup : (newlyApplied ++ rest).Nodup := h ▸ pending_nodup hfiles rows
  have hfilter : pending allFiles (rows ++ newlyApplied)
      = (pending allFiles rows).filter (· ∉ newlyApplied) := by
    unfold pending
    rw [List.filter_filter]
    refine List.filter_congr fun file _ ↦ ?_
    rw [← Bool.decide_and, decide_eq_decide, List.mem_append, not_or, and_comm]
  have hdisjoint := (List.nodup_append.mp hnodup).2.2
  rw [hfilter, h, List.filter_append, List.filter_eq_nil_iff.mpr, List.filter_eq_self.mpr, List.nil_append]
  · intro file hfile
    exact decide_eq_true fun hmem ↦ hdisjoint file hmem file hfile rfl
  · intro file hfile
    simpa using hfile

end Run

/-- In every state that is reached, the files whose SQL is committed are those recorded, each once.  A
run applies what was pending when it read the rows, in order, and all of it if it does not fail; while
it holds the lock nothing else is recorded.  When it has failed at a file, what was pending before that
file has been applied, and the file is the first that is pending for another run. -/
theorem migrations_sound {c : Config Pc Db Filename}
    (hc : program.Reachable .always Db.initial c) :
    (c.shared.applied = c.shared.recorded ∧ c.shared.applied.Nodup ∧
      (c.trace.map Prod.snd).reverse = c.shared.applied) ∧
    ∀ (i : Nat) pc, c.threads[i]? = some pc → (pc.progress? = none → mine i c.trace = []) ∧
      ∀ p, pc.progress? = some p →
        (mine i c.trace).reverse = p.newlyApplied ∧
        p.newlyApplied <+: pending p.allFiles p.alreadyApplied ∧
        p.newlyApplied.Pairwise Filename.Le ∧
        (pc.Resolved → p.newlyApplied = pending p.allFiles p.alreadyApplied) ∧
        (∀ s, pc.session? = some s → (pc.Severed → c.shared.LockedBy s) →
          c.shared.LockedBy s ∧ c.shared.recorded = p.alreadyApplied ++ p.newlyApplied) ∧
        (pc.Failed → p.allFiles.Nodup → ∃ file rest, p.todo.head? = some file ∧
          pending p.allFiles p.alreadyApplied = p.newlyApplied ++ file :: rest ∧
          pending p.allFiles (p.alreadyApplied ++ p.newlyApplied) = file :: rest) := by
  have hholds := Program.invariant keeps consistent_initial hc
  obtain ⟨hatomic, honce, htraced⟩ := hholds.shared
  refine ⟨⟨hatomic, hatomic ▸ honce, htraced⟩, fun i pc hpc ↦ ?_⟩
  have hthread := hholds.thread i pc hpc
  refine ⟨hthread.idle, fun p hp ↦ ?_⟩
  obtain ⟨hpending, hcommitted⟩ := hthread.progress hp
  have hprefix : p.newlyApplied <+: pending p.allFiles p.alreadyApplied := ⟨_, hpending.symm⟩
  refine ⟨hcommitted, hprefix, ?_, ?_, ?_, ?_⟩
  · exact (pending_sorted p.allFiles p.alreadyApplied).sublist hprefix.sublist
  · intro hdone
    rw [hpending, hthread.resolved hp hdone, List.filter_nil, List.append_nil]
  · exact fun s hs halive ↦ hthread.current hp hs halive
  · intro hfailed hfiles
    obtain ⟨file, hhead, hnew⟩ := hthread.failed hp hfailed
    obtain ⟨todo, htodo⟩ := List.head?_eq_some_iff.mp hhead
    rw [htodo, List.filter_cons_of_pos (by simpa using hnew)] at hpending
    exact ⟨file, _, hhead, hpending, pending_append hfiles hpending⟩

/-- `1.sql` and `2.sql` -/
def sampleFiles : List Filename := [[49, 46, 115, 113, 108], [50, 46, 115, 113, 108]]

/-- A run fails at the second file, and another one is at that file. -/
def rerun : List (Action (List Filename) Input) :=
  [.spawn sampleFiles] ++ List.replicate 10 (.run 0 ⟨.ok, 0⟩) ++ [.run 0 ⟨.ok, 0⟩, .run 0 ⟨.ok, 0⟩,
    .run 0 ⟨.error, 0⟩, .run 0 ⟨.ok, 0⟩, .run 0 ⟨.ok, 0⟩, .spawn sampleFiles] ++
    List.replicate 8 (.run 1 ⟨.ok, 0⟩)

/-- The files that each run has applied, and those that are left to it. -/
def outcome (c : Config Pc Db Filename) : List (List (List Filename)) :=
  (c.threads.filterMap Pc.progress?).map fun p ↦ [p.newlyApplied, p.todo]

theorem migrations_sound_rerun : ∃ c, program.exec .always (Program.start .initial) rerun = some c ∧
    outcome c = [[sampleFiles.take 1, sampleFiles.drop 1], [[], sampleFiles.drop 1]] ∧
    c.shared.applied = c.shared.recorded := by
  have hrun : (program.exec .always (Program.start .initial) rerun).map outcome =
      some [[sampleFiles.take 1, sampleFiles.drop 1], [[], sampleFiles.drop 1]] := by decide +kernel
  obtain ⟨c, hc, hv⟩ := Option.map_eq_some_iff.mp hrun
  exact ⟨c, hc, hv, (migrations_sound (Program.runs_of_exec hc)).1.1⟩

end Aesmsg.Store.Migrate
