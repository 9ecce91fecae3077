/-
# Concurrent calls on a key-value database

Calls that run interleaved, one database operation at a time, and hand out
entries of the database.  A call is a program `Prog` over the operations; any
operation may fail.  The program is the code, the other fields of a `Thread` only
record what it did: the entry it found last and has not deleted (`held`), the
entries it found and then deleted (`taken`), and the values it may still store
(`puts`).

`Obeys` says that a program hands out only what it has taken.  Such calls can
still hand out one entry twice, since another call may find it before it is
deleted.  They cannot in a careful run, where an entry is found only while no
other unfinished call holds it: `careful_handed_once`, by the invariant
`Exclusive`.
-/
import Mathlib

namespace ThresholdDsa.DbThreads

open Function List

variable {ι K V A B : Type}

/-- Programs over a database.  `find` reads a key and tests the value, `absent` asks whether a key
is known to be missing; a write or a deletion tells whether it succeeded. -/
inductive Prog (K V A : Type) where
  | ret (a : A)
  | find (k : K) (test : V → Bool) (hit : V → Prog K V A) (miss : Prog K V A)
  | absent (k : K) (next : Bool → Prog K V A)
  | put (k : K) (v : V) (next : Bool → Prog K V A)
  | del (k : K) (next : Bool → Prog K V A)

namespace Prog

def bind : Prog K V A → (A → Prog K V B) → Prog K V B
  | .ret a, f => f a
  | .find k test hit miss, f => .find k test (fun v => (hit v).bind f) (miss.bind f)
  | .absent k next, f => .absent k fun b => (next b).bind f
  | .put k v next, f => .put k v fun b => (next b).bind f
  | .del k next, f => .del k fun b => (next b).bind f

instance : Monad (Prog K V) where
  pure := .ret
  bind := bind

theorem bind_ret (p : Prog K V A) : p.bind .ret = p := by
  induction p with
  | ret a => rfl
  | find k test hit miss hit_ih miss_ih => simp only [bind, hit_ih, miss_ih]
  | absent k next ih => simp only [bind, ih]
  | put k v next ih => simp only [bind, ih]
  | del k next ih => simp only [bind, ih]

theorem bind_assoc {C : Type} (p : Prog K V A) (f : A → Prog K V B) (g : B → Prog K V C) :
    (p.bind f).bind g = p.bind fun a => (f a).bind g := by
  induction p with
  | ret a => rfl
  | find k test hit miss hit_ih miss_ih => simp only [bind, hit_ih, miss_ih]
  | absent k next ih => simp only [bind, ih]
  | put k v next ih => simp only [bind, ih]
  | del k next ih => simp only [bind, ih]

def result : Prog K V A → Option A
  | .ret a => some a
  | _ => none

theorem result_eq_some {p : Prog K V A} {a : A} : p.result = some a ↔ p = .ret a := by
  cases p <;> simp [result]

def finished (p : Prog K V A) : Bool := p.result.isSome

/-- A call that runs alone and whose operations succeed. -/
def exec [DecidableEq K] (db : K → Option V) : Prog K V A → (K → Option V) × A
  | .ret a => (db, a)
  | .find k test hit miss =>
    match (db k).filter test with
    | some v => (hit v).exec db
    | none => miss.exec db
  | .absent k next => (next (db k).isNone).exec db
  | .put k v next => (next true).exec (update db k (some v))
  | .del k next => (next true).exec (update db k none)

theorem exec_bind [DecidableEq K] (p : Prog K V A) (f : A → Prog K V B) (db : K → Option V) :
    (p.bind f).exec db = (f (p.exec db).2).exec (p.exec db).1 := by
  induction p generalizing db with
  | ret a => rfl
  | find k test hit miss hit_ih miss_ih =>
    simp only [bind, exec]
    split
    · exact hit_ih _ db
    · exact miss_ih db
  | absent k next ih => exact ih _ _
  | put k v next ih => exact ih _ _
  | del k next ih => exact ih _ _

/-- The first hit of a probe, from left to right. -/
def scan (probe : ℕ → Prog K V (Option B)) : List ℕ → Prog K V (Option B)
  | [] => .ret none
  | index :: rest => (probe index).bind fun
      | some hit => .ret (some hit)
      | none => scan probe rest

/-- A search whose probes only read. -/
theorem exec_scan [DecidableEq K] {probe : ℕ → Prog K V (Option B)} {db : K → Option V}
    {hit : ℕ → Option B} (reads : ∀ index, (probe index).exec db = (db, hit index))
    (indexs : List ℕ) : (scan probe indexs).exec db = (db, indexs.findSome? hit) := by
  induction indexs with
  | nil => rfl
  | cons index rest ih =>
    rw [scan, exec_bind, reads, findSome?_cons]
    cases hit index with
    | none => exact ih
    | some b => rfl

/-- Search `start .. stop` by halves, the left half first; the depth is at most `fuel`. -/
def halving (probe : ℕ → Prog K V (Option B)) : (fuel start stop : ℕ) → Prog K V (Option B)
  | 0, _, _ => .ret none
  | fuel + 1, start, stop =>
    if start > stop then .ret none
    else if start = stop then probe start
    else
      let mid := (stop + 1 - start) / 2
      (halving probe fuel start (start + mid - 1)).bind fun
        | some hit => .ret (some hit)
        | none => halving probe fuel (start + mid) stop

theorem scan_append (probe : ℕ → Prog K V (Option B)) (left right : List ℕ) :
    scan probe (left ++ right) = (scan probe left).bind fun
      | some hit => .ret (some hit)
      | none => scan probe right := by
  induction left with
  | nil => rfl
  | cons index left ih =>
    simp only [cons_append, scan, bind_assoc]
    congr 1
    funext found
    cases found with
    | none => exact ih
    | some hit => rfl

/-- Searching by halves is searching from left to right. -/
theorem halving_eq_scan (probe : ℕ → Prog K V (Option B)) {fuel start stop : ℕ}
    (enough : stop + 1 - start ≤ fuel) :
    halving probe fuel start stop = scan probe (List.range' start (stop + 1 - start)) := by
  induction fuel generalizing start stop with
  | zero =>
    have empty : stop + 1 - start = 0 := by omega
    rw [empty]
    rfl
  | succ fuel ih =>
    rw [halving]
    split
    · have empty : stop + 1 - start = 0 := by omega
      rw [empty]
      rfl
    split
    · rename_i same
      have one : stop + 1 - start = 1 := by omega
      rw [one]
      show probe start = (probe start).bind _
      conv_lhs => rw [← bind_ret (probe start)]
      congr 1
      funext found
      cases found <;> rfl
    · have split : ∃ mid, mid = (stop + 1 - start) / 2 := ⟨_, rfl⟩
      obtain ⟨mid, mid_eq⟩ := split
      rw [← mid_eq]
      have left_size : start + mid - 1 + 1 - start = mid := by omega
      have left : halving probe fuel start (start + mid - 1) =
          scan probe (List.range' start mid) := by
        rw [ih (by omega), left_size]
      have right : halving probe fuel (start + mid) stop =
          scan probe (List.range' (start + mid) (stop + 1 - (start + mid))) := ih (by omega)
      have whole : mid + (stop + 1 - (start + mid)) = stop + 1 - start := by omega
      rw [← whole, ← List.range'_append_1, scan_append]
      simp only [left, right]

end Prog

structure Thread (K V A : Type) where
  prog : Prog K V A
  held : Option (K × V)
  (taken puts : List V)

/-- The entry an unfinished call holds. -/
def Thread.holds (th : Thread K V A) : Option (K × V) :=
  if th.prog.finished then none else th.held

theorem Thread.holds_eq_held {th : Thread K V A} (unfinished : th.prog.finished = false) :
    th.holds = th.held := by
  simp [Thread.holds, unfinished]

theorem Thread.held_of_holds {th : Thread K V A} {x : K × V} (holds : th.holds = some x) :
    th.held = some x := by
  unfold Thread.holds at holds
  split at holds
  · cases holds
  · exact holds

structure Config (ι K V A : Type) where
  db : K → Option V
  threads : ι → Thread K V A

section

variable [DecidableEq K] [DecidableEq V]

/-- What is held and taken after deleting a key: the entry held under it has been taken. -/
def afterDelete (k : K) : Option (K × V) → List V → Option (K × V) × List V
  | some (k', v), taken => if k' = k then (none, taken ++ [v]) else (some (k', v), taken)
  | none, taken => (none, taken)

/-- The next operation of a thread; `fails` says whether it fails. -/
def Thread.step (db : K → Option V) (fails : Bool) (th : Thread K V A) :
    (K → Option V) × Thread K V A :=
  match th.prog with
  | .ret _ => (db, th)
  | .find k test hit miss =>
    match if fails then none else (db k).filter test with
    | some v => (db, { th with prog := hit v, held := some (k, v) })
    | none => (db, { th with prog := miss })
  | .absent k next => (db, { th with prog := next (!fails && (db k).isNone) })
  | .put k v next =>
    (if fails then db else update db k (some v),
      { th with prog := next !fails, puts := th.puts.erase v })
  | .del k next =>
    if fails then (db, { th with prog := next false })
    else (update db k none,
      { th with
        prog := next true
        held := (afterDelete k th.held th.taken).1
        taken := (afterDelete k th.held th.taken).2 })

variable [DecidableEq ι]

def Config.step (c : Config ι K V A) (i : ι) (fails : Bool) : Config ι K V A where
  db := ((c.threads i).step c.db fails).1
  threads := update c.threads i ((c.threads i).step c.db fails).2

theorem Config.step_self (c : Config ι K V A) (i : ι) (fails : Bool) :
    (c.step i fails).threads i = ((c.threads i).step c.db fails).2 := update_self _ _ _

/-- A step takes an entry only while no other unfinished call holds it. -/
def Careful (c : Config ι K V A) (i : ι) : Prop :=
  ∀ k test hit miss v, (c.threads i).prog = .find k test hit miss → c.db k = some v → test v →
    ∀ j ≠ i, ∀ k', (c.threads j).holds ≠ some (k', v)

/-- The states reached by interleaved steps. -/
inductive Run (start : Config ι K V A) : Config ι K V A → Prop where
  | start : Run start start
  | step {c : Config ι K V A} (run : Run start c) (i : ι) (fails : Bool) : Run start (c.step i fails)

def Config.steps (c : Config ι K V A) (schedule : List (ι × Bool)) : Config ι K V A :=
  schedule.foldl (fun c turn => c.step turn.1 turn.2) c

theorem run_steps {start c : Config ι K V A} (run : Run start c) (schedule : List (ι × Bool)) :
    Run start (c.steps schedule) := by
  induction schedule generalizing c with
  | nil => exact run
  | cons turn schedule ih => exact ih (run.step turn.1 turn.2)

/-- The states reached by careful steps. -/
inductive CarefulRun (start : Config ι K V A) : Config ι K V A → Prop where
  | start : CarefulRun start start
  | step {c : Config ι K V A} (run : CarefulRun start c) (i : ι) (careful : Careful c i)
      (fails : Bool) : CarefulRun start (c.step i fails)

omit [DecidableEq K] [DecidableEq V] [DecidableEq ι] in
theorem careful_of_alone {c : Config ι K V A} {i : ι}
    (alone : ∀ j ≠ i, (c.threads j).holds = none) : Careful c i := by
  intro k test hit miss v _ _ _ j other k'
  rw [alone j other]
  simp

end

/-! ## Programs that hand out what they have taken -/

section

variable [DecidableEq K] [DecidableEq V] (handed : A → List V) (entries : Set V)

/-- With the entry `held`, the entries `taken` and the values `puts` still to store, the program
ends by handing out nothing or what it has taken by then; it finds only values of `entries`. -/
def Obeys : Prog K V A → Option (K × V) → List V → List V → Prop
  | .ret a, _, taken, _ => handed a = [] ∨ handed a = taken
  | .find k test hit miss, held, taken, puts =>
    Obeys miss held taken puts ∧
      ∀ v ∈ entries, test v → Obeys (hit v) (some (k, v)) taken puts
  | .absent _ next, held, taken, puts => ∀ b, Obeys (next b) held taken puts
  | .put _ v next, held, taken, puts => v ∈ puts ∧ ∀ b, Obeys (next b) held taken (puts.erase v)
  | .del k next, held, taken, puts =>
    Obeys (next false) held taken puts ∧
      Obeys (next true) (afterDelete k held taken).1 (afterDelete k held taken).2 puts

def Thread.Obeys (th : Thread K V A) : Prop :=
  DbThreads.Obeys handed entries th.prog th.held th.taken th.puts

variable {handed entries}

theorem Thread.Obeys.step {th : Thread K V A} {db : K → Option V}
    (obeys : th.Obeys handed entries) (stored : ∀ k v, db k = some v → v ∈ entries) (fails : Bool) :
    (th.step db fails).2.Obeys handed entries := by
  obtain ⟨prog, held, taken, puts⟩ := th
  unfold Thread.Obeys at obeys
  cases prog with
  | ret a => exact obeys
  | find k test hit miss =>
    simp only [DbThreads.Obeys] at obeys
    simp only [Thread.step]
    split
    · rename_i v found
      split at found
      · cases found
      · obtain ⟨at_k, tested⟩ := Option.filter_eq_some_iff.mp found
        exact obeys.2 v (stored k v at_k) tested
    · exact obeys.1
  | absent k next =>
    simp only [DbThreads.Obeys] at obeys
    exact obeys _
  | put =>
    simp only [DbThreads.Obeys] at obeys
    exact obeys.2 _
  | del k next =>
    simp only [DbThreads.Obeys] at obeys
    cases fails with
    | true => exact obeys.1
    | false => exact obeys.2

end

/-! ## Careful runs -/

/-- No entry is in two hands: what is still to be stored is nowhere else, what is held is held once
and not taken, and what is taken is taken once and no longer stored. -/
structure Ledger (entries : Set V) (db : K → Option V) (holds : ι → Option (K × V))
    (taken puts : ι → List V) : Prop where
  stored : ∀ {k v}, db k = some v → v ∈ entries
  one_place : ∀ {k k' v}, db k = some v → db k' = some v → k = k'
  puts_entries : ∀ {i v}, v ∈ puts i → v ∈ entries
  puts_nodup : ∀ i, (puts i).Nodup
  puts_apart : ∀ {i j v}, v ∈ puts i → v ∈ puts j → i = j
  puts_unstored : ∀ {i v k}, v ∈ puts i → db k ≠ some v
  puts_unheld : ∀ {i j v k}, v ∈ puts i → holds j ≠ some (k, v)
  puts_untaken : ∀ {i j v}, v ∈ puts i → v ∉ taken j
  holds_entries : ∀ {i k v}, holds i = some (k, v) → v ∈ entries
  holds_place : ∀ {i k k' v}, holds i = some (k, v) → db k' = some v → k' = k
  holds_apart : ∀ {i j k k' v}, holds i = some (k, v) → holds j = some (k', v) → i = j
  holds_untaken : ∀ {i j k v}, holds i = some (k, v) → v ∉ taken j
  taken_entries : ∀ {i v}, v ∈ taken i → v ∈ entries
  taken_gone : ∀ {i v k}, v ∈ taken i → db k ≠ some v
  taken_nodup : ∀ i, (taken i).Nodup
  taken_apart : ∀ {i j v}, v ∈ taken i → v ∈ taken j → i = j

namespace Ledger

variable {entries : Set V} {db db' : K → Option V} {holds holds' : ι → Option (K × V)}
  {taken puts puts' : ι → List V} (ledger : Ledger entries db holds taken puts)

include ledger

/-- Less may be stored, held or still to be stored. -/
theorem mono (db_le : ∀ {k v}, db' k = some v → db k = some v)
    (holds_le : ∀ {i x}, holds' i = some x → holds i = some x)
    (puts_le : ∀ i, (puts' i).Sublist (puts i)) : Ledger entries db' holds' taken puts' where
  stored at_k := ledger.stored (db_le at_k)
  one_place at_k at_k' := ledger.one_place (db_le at_k) (db_le at_k')
  puts_entries mem := ledger.puts_entries ((puts_le _).subset mem)
  puts_nodup i := (ledger.puts_nodup i).sublist (puts_le i)
  puts_apart mem mem' := ledger.puts_apart ((puts_le _).subset mem) ((puts_le _).subset mem')
  puts_unstored mem at_k := ledger.puts_unstored ((puts_le _).subset mem) (db_le at_k)
  puts_unheld mem held := ledger.puts_unheld ((puts_le _).subset mem) (holds_le held)
  puts_untaken mem := ledger.puts_untaken ((puts_le _).subset mem)
  holds_entries held := ledger.holds_entries (holds_le held)
  holds_place held at_k := ledger.holds_place (holds_le held) (db_le at_k)
  holds_apart held held' := ledger.holds_apart (holds_le held) (holds_le held')
  holds_untaken held := ledger.holds_untaken (holds_le held)
  taken_entries := ledger.taken_entries
  taken_gone mem at_k := ledger.taken_gone mem (db_le at_k)
  taken_nodup := ledger.taken_nodup
  taken_apart := ledger.taken_apart

variable [DecidableEq ι] {i : ι} {k : K} {v : V}

/-- A stored entry that nobody else holds may be held. -/
theorem hold (at_k : db k = some v) (others : ∀ j ≠ i, ∀ k', holds j ≠ some (k', v)) :
    Ledger entries db (update holds i (some (k, v))) taken puts := by
  have each_held : ∀ {j k' w}, update holds i (some (k, v)) j = some (k', w) →
      (j = i ∧ k' = k ∧ w = v) ∨ (j ≠ i ∧ holds j = some (k', w)) := by
    intro j k' w held
    by_cases same : j = i
    · rw [same, update_self, Option.some.injEq, Prod.mk.injEq] at held
      exact .inl ⟨same, held.1.symm, held.2.symm⟩
    · rw [update_of_ne same] at held
      exact .inr ⟨same, held⟩
  refine { ledger with
    puts_unheld := ?_, holds_entries := ?_, holds_place := ?_, holds_apart := ?_,
    holds_untaken := ?_ }
  · intro j j' w k' mem held
    rcases each_held held with ⟨-, -, rfl⟩ | ⟨-, old⟩
    · exact ledger.puts_unstored mem at_k
    · exact ledger.puts_unheld mem old
  · intro j k' w held
    rcases each_held held with ⟨-, -, rfl⟩ | ⟨-, old⟩
    · exact ledger.stored at_k
    · exact ledger.holds_entries old
  · intro j k' k'' w held at_k''
    rcases each_held held with ⟨-, rfl, rfl⟩ | ⟨-, old⟩
    · exact ledger.one_place at_k'' at_k
    · exact ledger.holds_place old at_k''
  · intro j j' k' k'' w held held'
    rcases each_held held with ⟨rfl, -, rfl⟩ | ⟨other, old⟩
    · rcases each_held held' with ⟨rfl, -, -⟩ | ⟨other', old'⟩
      · rfl
      · exact absurd old' (others j' other' k'')
    · rcases each_held held' with ⟨rfl, -, rfl⟩ | ⟨-, old'⟩
      · exact absurd old (others j other k')
      · exact ledger.holds_apart old old'
  · intro j j' k' w held mem
    rcases each_held held with ⟨-, -, rfl⟩ | ⟨-, old⟩
    · exact ledger.taken_gone mem at_k
    · exact ledger.holds_untaken old mem

/-- An entry that is nowhere may be taken. -/
theorem take (entry : v ∈ entries) (unstored : ∀ k, db k ≠ some v) (unheld : ∀ j k, holds j ≠ some (k, v))
    (untaken : ∀ j, v ∉ taken j) (unput : ∀ j, v ∉ puts j) :
    Ledger entries db holds (update taken i (taken i ++ [v])) puts := by
  have each_taken : ∀ {j w}, w ∈ update taken i (taken i ++ [v]) j →
      w ∈ taken j ∨ (j = i ∧ w = v) := by
    intro j w mem
    by_cases same : j = i
    · rw [same, update_self, mem_append, mem_singleton] at mem
      rw [same]
      exact mem.imp_right fun w_eq => ⟨rfl, w_eq⟩
    · rw [update_of_ne same] at mem
      exact .inl mem
  refine { ledger with
    puts_untaken := ?_, holds_untaken := ?_, taken_entries := ?_, taken_gone := ?_,
    taken_nodup := ?_, taken_apart := ?_ }
  · intro j j' w mem mem'
    rcases each_taken mem' with old | ⟨-, rfl⟩
    · exact ledger.puts_untaken mem old
    · exact unput j mem
  · intro j j' k w held mem
    rcases each_taken mem with old | ⟨-, rfl⟩
    · exact ledger.holds_untaken held old
    · exact unheld j k held
  · intro j w mem
    rcases each_taken mem with old | ⟨-, rfl⟩
    · exact ledger.taken_entries old
    · exact entry
  · intro j w k mem
    rcases each_taken mem with old | ⟨-, rfl⟩
    · exact ledger.taken_gone old
    · exact unstored k
  · intro j
    by_cases same : j = i
    · rw [same, update_self, nodup_append]
      refine ⟨ledger.taken_nodup i, nodup_singleton v, ?_⟩
      intro w mem w' mem' same
      rw [mem_singleton] at mem'
      exact untaken i (mem' ▸ same ▸ mem)
    · rw [update_of_ne same]
      exact ledger.taken_nodup j
  · intro j j' w mem mem'
    rcases each_taken mem with old | ⟨rfl, rfl⟩
    · rcases each_taken mem' with old' | ⟨-, rfl⟩
      · exact ledger.taken_apart old old'
      · exact absurd old (untaken j)
    · rcases each_taken mem' with old' | ⟨rfl, -⟩
      · exact absurd old' (untaken j')
      · rfl

omit [DecidableEq ι]

/-- An entry that is nowhere may be stored. -/
theorem store [DecidableEq K] (entry : v ∈ entries) (unstored : ∀ k, db k ≠ some v)
    (unheld : ∀ j k, holds j ≠ some (k, v)) (untaken : ∀ j, v ∉ taken j) (unput : ∀ j, v ∉ puts j) :
    Ledger entries (update db k (some v)) holds taken puts := by
  have each_stored : ∀ {k' w}, update db k (some v) k' = some w →
      (k' = k ∧ w = v) ∨ db k' = some w := by
    intro k' w at_k'
    by_cases same : k' = k
    · rw [same, update_self, Option.some.injEq] at at_k'
      exact .inl ⟨same, at_k'.symm⟩
    · rw [update_of_ne same] at at_k'
      exact .inr at_k'
  refine { ledger with
    stored := ?_, one_place := ?_, puts_unstored := ?_, holds_place := ?_, taken_gone := ?_ }
  · intro k' w at_k'
    rcases each_stored at_k' with ⟨-, rfl⟩ | old
    · exact entry
    · exact ledger.stored old
  · intro k' k'' w at_k' at_k''
    rcases each_stored at_k' with ⟨rfl, rfl⟩ | old
    · rcases each_stored at_k'' with ⟨rfl, -⟩ | old'
      · rfl
      · exact absurd old' (unstored k'')
    · rcases each_stored at_k'' with ⟨-, rfl⟩ | old'
      · exact absurd old (unstored k')
      · exact ledger.one_place old old'
  · intro j w k' mem at_k'
    rcases each_stored at_k' with ⟨-, rfl⟩ | old
    · exact unput j mem
    · exact ledger.puts_unstored mem old
  · intro j k' k'' w held at_k''
    rcases each_stored at_k'' with ⟨-, rfl⟩ | old
    · exact absurd held (unheld j k')
    · exact ledger.holds_place held old
  · intro j w k' mem at_k'
    rcases each_stored at_k' with ⟨-, rfl⟩ | old
    · exact untaken j mem
    · exact ledger.taken_gone mem old

end Ledger

section Exclusive

variable [DecidableEq K] [DecidableEq V] (handed : A → List V) (entries : Set V)

structure Exclusive (c : Config ι K V A) : Prop where
  obeys : ∀ i, (c.threads i).Obeys handed entries
  ledger : Ledger entries c.db (fun j => (c.threads j).holds) (fun j => (c.threads j).taken)
    fun j => (c.threads j).puts

variable {handed entries} {c : Config ι K V A} {i : ι} {th : Thread K V A} {db : K → Option V}

theorem handed_of_finished (exclusive : Exclusive handed entries c) {a : A}
    (returned : (c.threads i).prog = .ret a) : handed a = [] ∨ handed a = (c.threads i).taken := by
  have obeys := exclusive.obeys i
  unfold Thread.Obeys at obeys
  rwa [returned, Obeys] at obeys

variable [DecidableEq ι]

/-- The ledger after the thread `i` has become `th`. -/
def LedgerWith (entries : Set V) (c : Config ι K V A) (i : ι) (db : K → Option V)
    (th : Thread K V A) : Prop :=
  Ledger entries db (update (fun j => (c.threads j).holds) i th.holds)
    (update (fun j => (c.threads j).taken) i th.taken)
    (update (fun j => (c.threads j).puts) i th.puts)

variable (exclusive : Exclusive handed entries c)

include exclusive

variable (unfinished : (c.threads i).prog.finished = false)

include unfinished

/-- A step that takes nothing and stores nothing. -/
theorem ledgerWith_mono (db_le : ∀ {k v}, db k = some v → c.db k = some v)
    (held_le : ∀ {x}, th.held = some x → (c.threads i).held = some x)
    (taken_eq : th.taken = (c.threads i).taken) (puts_le : th.puts.Sublist (c.threads i).puts) :
    LedgerWith entries c i db th := by
  unfold LedgerWith
  rw [taken_eq, update_eq_self i (fun j => (c.threads j).taken)]
  apply exclusive.ledger.mono db_le
  · intro j x holds
    by_cases same : j = i
    · subst same
      rw [update_self] at holds
      rw [Thread.holds_eq_held unfinished]
      exact held_le (Thread.held_of_holds holds)
    · rwa [update_of_ne same] at holds
  · intro j
    by_cases same : j = i
    · subst same
      rw [update_self]
      exact puts_le
    · rw [update_of_ne same]

omit unfinished in
theorem ledgerWith_hit {k : K} {v : V}
    (at_k : c.db k = some v) (others : ∀ j ≠ i, ∀ k', (c.threads j).holds ≠ some (k', v))
    (rest : Prog K V A) :
    LedgerWith entries c i c.db { c.threads i with prog := rest, held := some (k, v) } := by
  unfold LedgerWith
  rw [update_eq_self i (fun j => (c.threads j).taken),
    update_eq_self i (fun j => (c.threads j).puts)]
  apply (exclusive.ledger.hold at_k others).mono id
  · intro j x holds
    by_cases same : j = i
    · subst same
      rw [update_self] at holds ⊢
      exact Thread.held_of_holds holds
    · rwa [update_of_ne same] at holds ⊢
  · exact fun j => List.Sublist.refl _

theorem ledgerWith_take {k : K} {v : V}
    (held : (c.threads i).held = some (k, v)) (rest : Prog K V A) :
    LedgerWith entries c i (update c.db k none)
      { c.threads i with prog := rest, held := none, taken := (c.threads i).taken ++ [v] } := by
  have holds : (c.threads i).holds = some (k, v) := by
    rw [Thread.holds_eq_held unfinished, held]
  have released : LedgerWith entries c i (update c.db k none)
      { c.threads i with prog := rest, held := none } := by
    apply ledgerWith_mono exclusive unfinished
    · intro k' w at_k'
      by_cases same : k' = k
      · rw [same, update_self] at at_k'
        cases at_k'
      · rwa [update_of_ne same] at at_k'
    · intro x none_eq
      cases none_eq
    · rfl
    · exact List.Sublist.refl _
  unfold LedgerWith at released
  have nothing_held : ({ c.threads i with prog := rest, held := none } : Thread K V A).holds = none := by
    cases finished : rest.finished <;> simp [Thread.holds, finished]
  have taken := released.take (i := i) (exclusive.ledger.holds_entries holds) ?_ ?_ ?_ ?_
  · simpa only [LedgerWith, update_self, update_idem, nothing_held, Thread.holds,
      ite_self] using taken
  · -- the entry was stored under the deleted key, if at all
    intro k' at_k'
    by_cases same : k' = k
    · rw [same, update_self] at at_k'
      cases at_k'
    · rw [update_of_ne same] at at_k'
      exact same (exclusive.ledger.holds_place holds at_k')
  · intro j k' held_j
    by_cases same : j = i
    · rw [same, update_self, nothing_held] at held_j
      cases held_j
    · rw [update_of_ne same] at held_j
      exact same (exclusive.ledger.holds_apart held_j holds)
  · intro j mem
    rw [update_eq_self i (fun j => (c.threads j).taken)] at mem
    exact exclusive.ledger.holds_untaken holds mem
  · intro j mem
    rw [update_eq_self i (fun j => (c.threads j).puts)] at mem
    exact exclusive.ledger.puts_unheld mem holds

theorem ledgerWith_put {k : K} {v : V} (to_put : v ∈ (c.threads i).puts) (rest : Prog K V A) :
    LedgerWith entries c i (update c.db k (some v))
      { c.threads i with prog := rest, puts := (c.threads i).puts.erase v } := by
  have ledger := exclusive.ledger
  have erased : LedgerWith entries c i c.db
      { c.threads i with prog := rest, puts := (c.threads i).puts.erase v } :=
    ledgerWith_mono exclusive unfinished id id rfl erase_sublist
  apply Ledger.store erased (ledger.puts_entries to_put)
  · exact fun k => ledger.puts_unstored to_put
  · intro j k' held_j
    by_cases same : j = i
    · rw [same, update_self] at held_j
      have held_i := Thread.held_of_holds held_j
      exact ledger.puts_unheld to_put ((Thread.holds_eq_held unfinished).trans held_i)
    · rw [update_of_ne same] at held_j
      exact ledger.puts_unheld to_put held_j
  · intro j mem
    rw [update_eq_self i (fun j => (c.threads j).taken)] at mem
    exact ledger.puts_untaken to_put mem
  · intro j mem
    by_cases same : j = i
    · rw [same, update_self] at mem
      exact (ledger.puts_nodup i).not_mem_erase mem
    · rw [update_of_ne same] at mem
      exact same (ledger.puts_apart mem to_put)

omit unfinished

/-- A careful step of one thread keeps the ledger. -/
theorem ledgerWith_step (careful : Careful c i) (fails : Bool) :
    LedgerWith entries c i ((c.threads i).step c.db fails).1 ((c.threads i).step c.db fails).2 := by
  have obeys := exclusive.obeys i
  unfold Thread.Obeys at obeys
  -- a step that changes neither what is held nor what is taken
  have quiet : ∀ db rest, (c.threads i).prog.finished = false →
      (∀ {k v}, db k = some v → c.db k = some v) →
        LedgerWith entries c i db { c.threads i with prog := rest } := by
    intro db rest unfinished db_le
    exact ledgerWith_mono exclusive unfinished db_le id rfl (List.Sublist.refl _)
  have shrinks : ∀ {k k' w}, update c.db k none k' = some w → c.db k' = some w := by
    intro k k' w at_k'
    by_cases same : k' = k
    · rw [same, update_self] at at_k'
      cases at_k'
    · rwa [update_of_ne same] at at_k'
  cases prog_eq : (c.threads i).prog with
  | ret a =>
    have self : ((c.threads i).step c.db fails) = (c.db, c.threads i) := by
      simp only [Thread.step, prog_eq]
    rw [self]
    simpa only [LedgerWith, update_eq_self i (fun j => (c.threads j).holds),
      update_eq_self i (fun j => (c.threads j).taken),
      update_eq_self i (fun j => (c.threads j).puts)] using exclusive.ledger
  | find k test hit miss =>
    simp only [Thread.step, prog_eq]
    split
    · rename_i v found
      split at found
      · cases found
      · obtain ⟨at_k, tested⟩ := Option.filter_eq_some_iff.mp found
        exact ledgerWith_hit exclusive at_k (careful k test hit miss v prog_eq at_k tested) _
    · exact quiet _ _ (by rw [prog_eq]; rfl) id
  | absent k next =>
    simp only [Thread.step, prog_eq]
    exact quiet _ _ (by rw [prog_eq]; rfl) id
  | put =>
    simp only [Thread.step, prog_eq]
    simp only [prog_eq, Obeys] at obeys
    cases fails with
    | true =>
      exact ledgerWith_mono exclusive (by rw [prog_eq]; rfl) id id rfl erase_sublist
    | false => exact ledgerWith_put exclusive (by rw [prog_eq]; rfl) obeys.1 _
  | del k next =>
    simp only [Thread.step, prog_eq]
    cases fails with
    | true => exact quiet _ _ (by rw [prog_eq]; rfl) id
    | false =>
      cases held_eq : (c.threads i).held with
      | none =>
        have same := quiet _ (next true) (by rw [prog_eq]; rfl) (shrinks (k := k))
        simpa only [afterDelete, held_eq, Bool.false_eq_true, if_false] using same
      | some found =>
        obtain ⟨k', v⟩ := found
        by_cases same : k' = k
        · subst same
          have taken := ledgerWith_take exclusive (by rw [prog_eq]; rfl) held_eq (next true)
          simpa only [afterDelete, if_true, Bool.false_eq_true, if_false] using taken
        · have other := quiet _ (next true) (by rw [prog_eq]; rfl) (shrinks (k := k))
          simpa only [afterDelete, held_eq, same, Bool.false_eq_true, if_false] using other

theorem exclusive_step (careful : Careful c i)
    (fails : Bool) : Exclusive handed entries (c.step i fails) := by
  constructor
  · intro j
    by_cases same : j = i
    · subst same
      show (update c.threads j _ j).Obeys handed entries
      rw [update_self]
      exact (exclusive.obeys j).step (fun k v => exclusive.ledger.stored) fails
    · show (update c.threads i _ j).Obeys handed entries
      rw [update_of_ne same]
      exact exclusive.obeys j
  · have with_step := ledgerWith_step exclusive careful fails
    show Ledger entries _ (Thread.holds ∘ update c.threads i _)
      (Thread.taken ∘ update c.threads i _) (Thread.puts ∘ update c.threads i _)
    rw [comp_update, comp_update, comp_update]
    exact with_step

omit exclusive

theorem exclusive_run {start : Config ι K V A} (exclusive : Exclusive handed entries start)
    (run : CarefulRun start c) : Exclusive handed entries c := by
  induction run with
  | start => exact exclusive
  | step run i careful fails ih => exact exclusive_step ih careful fails

/-- In a careful run no entry is handed out twice, by one call or by two. -/
theorem careful_handed_once {start : Config ι K V A} (exclusive : Exclusive handed entries start)
    (run : CarefulRun start c) {a : A} (returned : (c.threads i).prog = .ret a) :
    (handed a).Nodup ∧ (∀ v ∈ handed a, v ∈ entries) ∧
      ∀ j b, (c.threads j).prog = .ret b → ∀ v ∈ handed a, v ∈ handed b → j = i := by
  have reached := exclusive_run exclusive run
  have from_taken : ∀ {j b}, (c.threads j).prog = .ret b → ∀ v ∈ handed b, v ∈ (c.threads j).taken := by
    intro j b returned v mem
    rcases handed_of_finished reached returned with nothing | all
    · rw [nothing] at mem
      cases mem
    · rwa [all] at mem
  refine ⟨?_, ?_, ?_⟩
  · rcases handed_of_finished reached returned with nothing | all
    · rw [nothing]
      exact nodup_nil
    · rw [all]
      exact reached.ledger.taken_nodup i
  · exact fun v mem => reached.ledger.taken_entries (from_taken returned v mem)
  · intro j b returned' v mem mem'
    exact reached.ledger.taken_apart (from_taken returned' v mem') (from_taken returned v mem)

end Exclusive

end ThresholdDsa.DbThreads
