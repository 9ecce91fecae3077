/-
# One program on a database whose operations may fail

`Prog.ran faults` runs a program of `DbThreads` alone; the operation with number
`n` fails if `faults n`.  It keeps the database after every operation, so that a
statement about every moment of the run is a statement about `states`.

`Keeps` is the invariant rule: a property kept by every write a program can make
holds after every operation, whatever fails.  `putAll` is a sequence of writes
that stops at the first that fails.
-/
import ThresholdDsa.Lib.DbThreads

namespace ThresholdDsa.DbThreads

open Function List

variable {K V A B : Type}

/-- The databases after each operation, the last one, the number of the next operation, and the
result. -/
structure Ran (K V A : Type) where
  states : List (K → Option V)
  db : K → Option V
  next : ℕ
  result : A

/-- The run with an operation in front that leaves the database `db`. -/
def Ran.after (db : K → Option V) (r : Ran K V A) : Ran K V A := { r with states := db :: r.states }

/-- The run with another one in front. -/
def Ran.behind (first : List (K → Option V)) (r : Ran K V A) : Ran K V A :=
  { r with states := first ++ r.states }

namespace Prog

section

variable [DecidableEq K] (faults : ℕ → Bool)

def ran : ℕ → (K → Option V) → Prog K V A → Ran K V A
  | n, db, .ret a => ⟨[], db, n, a⟩
  | n, db, .find k test hit miss =>
    match if faults n then none else (db k).filter test with
    | some v => ((hit v).ran (n + 1) db).after db
    | none => (miss.ran (n + 1) db).after db
  | n, db, .absent k next => ((next (!faults n && (db k).isNone)).ran (n + 1) db).after db
  | n, db, .put k v next =>
    if faults n then ((next false).ran (n + 1) db).after db
    else ((next true).ran (n + 1) (update db k (some v))).after
      (update db k (some v))
  | n, db, .del k next =>
    if faults n then ((next false).ran (n + 1) db).after db
    else ((next true).ran (n + 1) (update db k none)).after (update db k none)

section

variable {faults} {n : ℕ} {db : K → Option V} {k : K} {v : V}

theorem ran_find_hit {test : V → Bool} {hit : V → Prog K V A} {miss : Prog K V A}
    (reads : faults n = false) (found : db k = some v) (passes : test v = true) :
    (Prog.find k test hit miss).ran faults n db = ((hit v).ran faults (n + 1) db).after db := by
  have hits : (db k).filter test = some v := Option.filter_eq_some_iff.mpr ⟨found, passes⟩
  simp [ran, reads, hits]

theorem ran_find_miss {test : V → Bool} {hit : V → Prog K V A} {miss : Prog K V A}
    (misses : faults n = true ∨ (db k).filter test = none) :
    (Prog.find k test hit miss).ran faults n db = (miss.ran faults (n + 1) db).after db := by
  have none_found : (if faults n = true then none else (db k).filter test) = none := by
    rcases misses with fails | absent
    · rw [if_pos fails]
    · rw [absent, ite_self]
  simp only [ran, none_found]

variable {next : Bool → Prog K V A}

theorem ran_put (stores : faults n = false) :
    (Prog.put k v next).ran faults n db =
      ((next true).ran faults (n + 1) (update db k (some v))).after
        (update db k (some v)) := by
  simp [ran, stores]

theorem ran_put_fails (fails : faults n = true) :
    (Prog.put k v next).ran faults n db = ((next false).ran faults (n + 1) db).after db := by
  simp [ran, fails]

theorem ran_del (deletes : faults n = false) :
    (Prog.del k next).ran faults n db =
      ((next true).ran faults (n + 1) (update db k none)).after
        (update db k none) := by
  simp [ran, deletes]

theorem ran_del_fails (fails : faults n = true) :
    (Prog.del k next).ran faults n db = ((next false).ran faults (n + 1) db).after db := by
  simp [ran, fails]

end

theorem ran_bind (p : Prog K V A) (f : A → Prog K V B) (n : ℕ) (db : K → Option V) :
    (p.bind f).ran faults n db =
      ((f (p.ran faults n db).result).ran faults (p.ran faults n db).next
        (p.ran faults n db).db).behind (p.ran faults n db).states := by
  induction p generalizing n db with
  | ret a => rfl
  | find k test hit miss hit_ih miss_ih =>
    simp only [bind, ran]
    split
    · rw [hit_ih]
      rfl
    · rw [miss_ih]
      rfl
  | absent k next ih =>
    simp only [bind, ran, ih]
    rfl
  | put k v next ih =>
    simp only [bind, ran]
    split <;> (rw [ih]; rfl)
  | del k next ih =>
    simp only [bind, ran]
    split <;> (rw [ih]; rfl)

end

/-! ## Invariants -/

variable {Inv : (K → Option V) → Prop}

section

variable [DecidableEq K]

/-- Every write the program can make keeps the invariant. -/
def Keeps (Inv : (K → Option V) → Prop) : Prog K V A → Prop
  | .ret _ => True
  | .find _ _ hit miss => (∀ v, (hit v).Keeps Inv) ∧ miss.Keeps Inv
  | .absent _ next => ∀ b, (next b).Keeps Inv
  | .put k v next =>
    (∀ db, Inv db → Inv (update db k (some v))) ∧ ∀ b, (next b).Keeps Inv
  | .del k next => (∀ db, Inv db → Inv (update db k none)) ∧ ∀ b, (next b).Keeps Inv

/-- The invariant holds after every operation and at the end. -/
structure Ran.Always (Inv : (K → Option V) → Prop) (r : Ran K V A) : Prop where
  states : ∀ db ∈ r.states, Inv db
  db : Inv r.db

omit [DecidableEq K] in
theorem Ran.Always.after {r : Ran K V A} (always : Ran.Always Inv r) {db : K → Option V}
    (inv : Inv db) : Ran.Always Inv (r.after db) where
  states := by
    intro db' member
    rcases mem_cons.mp member with rfl | later
    · exact inv
    · exact always.states db' later
  db := always.db

omit [DecidableEq K] in
theorem Ran.Always.behind {r : Ran K V A} (always : Ran.Always Inv r)
    {first : List (K → Option V)} (inv : ∀ db ∈ first, Inv db) :
    Ran.Always Inv (r.behind first) where
  states := by
    intro db' member
    rcases mem_append.mp member with early | later
    · exact inv db' early
    · exact always.states db' later
  db := always.db

theorem Keeps.ran {p : Prog K V A} (keeps : p.Keeps Inv) (faults : ℕ → Bool) (n : ℕ)
    {db : K → Option V} (inv : Inv db) : Ran.Always Inv (p.ran faults n db) := by
  induction p generalizing n db with
  | ret a => exact ⟨fun _ member => absurd member not_mem_nil, inv⟩
  | find k test hit miss hit_ih miss_ih =>
    simp only [Prog.ran]
    split
    · exact (hit_ih _ (keeps.1 _) _ inv).after inv
    · exact (miss_ih keeps.2 _ inv).after inv
  | absent k next ih => exact (ih _ (keeps _) _ inv).after inv
  | put k v next ih =>
    simp only [Prog.ran]
    split
    · exact (ih _ (keeps.2 _) _ inv).after inv
    · exact (ih _ (keeps.2 _) _ (keeps.1 _ inv)).after (keeps.1 _ inv)
  | del k next ih =>
    simp only [Prog.ran]
    split
    · exact (ih _ (keeps.2 _) _ inv).after inv
    · exact (ih _ (keeps.2 _) _ (keeps.1 _ inv)).after (keeps.1 _ inv)

end

/-! ## A program of one database inside another -/

/-- The keys by `key`, the values by `code` and `read`; a value that cannot be read is missed. -/
def embed {K' V' : Type} (key : K → K') (code : V → V') (read : V' → Option V) :
    Prog K V A → Prog K' V' A
  | .ret a => .ret a
  | .find k test hit miss =>
    .find (key k) (fun v' => (read v').any test)
      (fun v' => ((read v').map fun v => (hit v).embed key code read).getD
        (miss.embed key code read))
      (miss.embed key code read)
  | .absent k next => .absent (key k) fun b => (next b).embed key code read
  | .put k v next => .put (key k) (code v) fun b => (next b).embed key code read
  | .del k next => .del (key k) fun b => (next b).embed key code read

/-! ## Sequences of writes -/

section

variable {E : Type}

/-- The writes in order, up to the first that fails, which gives its error. -/
def putAll : List (K × V × E) → Prog K V (Except E Unit)
  | [] => .ret (.ok ())
  | (k, v, e) :: rest => .put k v fun stored => if stored then putAll rest else .ret (.error e)

variable [DecidableEq K]

theorem keeps_putAll {writes : List (K × V × E)}
    (keeps : ∀ w ∈ writes, ∀ db, Inv db → Inv (update db w.1 (some w.2.1))) :
    (putAll writes).Keeps Inv := by
  induction writes with
  | nil => trivial
  | cons w rest ih =>
    obtain ⟨k, v, e⟩ := w
    refine ⟨keeps _ mem_cons_self, fun b => ?_⟩
    cases b with
    | false => trivial
    | true => exact ih fun w member => keeps w (mem_cons_of_mem _ member)

/-- The writes all succeed exactly if none of their operations fails. -/
theorem putAll_ok_iff (faults : ℕ → Bool) (writes : List (K × V × E)) (n : ℕ)
    (db : K → Option V) :
    ((putAll writes).ran faults n db).result = .ok () ↔
      ∀ i < writes.length, faults (n + i) = false := by
  induction writes generalizing n db with
  | nil => exact ⟨fun _ i lt => absurd lt (Nat.not_lt_zero i), fun _ => rfl⟩
  | cons w rest ih =>
    obtain ⟨k, v, e⟩ := w
    simp only [putAll, ran]
    cases first : faults n with
    | true =>
      constructor
      · intro done
        cases done
      · intro none_fails
        have := none_fails 0 (Nat.succ_pos _)
        rw [Nat.add_zero, first] at this
        cases this
    | false =>
      refine (ih (n + 1) _).trans ⟨fun later i lt => ?_, fun none_fails i lt => ?_⟩
      · cases i with
        | zero => exact first
        | succ i =>
          have := later i (Nat.lt_of_succ_lt_succ lt)
          rwa [Nat.add_right_comm] at this
      · have := none_fails (i + 1) (Nat.succ_lt_succ lt)
        rwa [← Nat.add_assoc, Nat.add_right_comm] at this

end

end Prog

end ThresholdDsa.DbThreads
