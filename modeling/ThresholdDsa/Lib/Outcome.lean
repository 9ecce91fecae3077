/-
# Results of fallible imperative code

A call returns a value, returns an error with its text, or panics.  `Outcome`
is the exception monad over these faults, and the loops of the modelled code
are three combinators with one inversion lemma each:

* `require` stops with an error text unless a test holds (`require_eq_ok`);
* `deref` uses a pointer that may be nil (`deref_eq_ok`);
* `forRange` runs a body for each index of a slice in order and collects the
  results (`forRange_eq_ok`), `List.mapM` for each element (`mapM_eq_ok`).

`bind_eq_ok` peels a computation apart one step at a time; `eq_ok` is all of these rules.  `NoError` says that a
computation can only return or panic; `noError_bind` chains such steps.
-/
import Mathlib

namespace ThresholdDsa

open List

inductive Fault where
  | error (text : String)
  | panic
  deriving DecidableEq, Repr

abbrev Outcome := Except Fault

namespace Outcome

variable {α β : Type}
  {f : α → Outcome β} {xs : List α} {x : Outcome α} {a : α} {text : String} {n : ℕ}

theorem bind_eq_ok {b : β} :
    x >>= f = .ok b ↔ ∃ a, x = .ok a ∧ f a = .ok b := by
  cases x with
  | error fault => simp [bind, Except.bind]
  | ok a => simp [bind, Except.bind]

theorem ok_bind (a : α) (f : α → Outcome β) : (.ok a : Outcome α) >>= f = f a := rfl

theorem pure_eq_ok {b : α} : (pure a : Outcome α) = .ok b ↔ a = b := by
  simp [pure, Except.pure]

theorem exists_of_isOk (returns : x.isOk = true) : ∃ a, x = .ok a := by
  cases x with
  | error fault => exact absurd returns (by simp [Except.isOk, Except.toBool])
  | ok a => exact ⟨a, rfl⟩

/-- Stop with the error `text` unless `test` holds. -/
def require (test : Bool) (text : String) : Outcome Unit :=
  if test then .ok () else .error (.error text)

@[simp] theorem require_eq_ok {test : Bool} {u : Unit} :
    require test text = .ok u ↔ test = true := by
  cases test <;> simp [require]

/-- Use a pointer: a nil pointer panics. -/
def deref : Option α → Outcome α
  | some a => .ok a
  | none => .error .panic

@[simp] theorem deref_eq_ok {x : Option α} : deref x = .ok a ↔ x = some a := by
  cases x <;> simp [deref]

/-- Return the error `text` where the pointer is nil. -/
def orError (text : String) : Option α → Outcome α
  | some a => .ok a
  | none => .error (.error text)

@[simp] theorem orError_eq_ok {x : Option α} :
    orError text x = .ok a ↔ x = some a := by
  cases x <;> simp [orError]

/-- The inversion rules above, as one simp argument. -/
theorem eq_ok :
    (∀ {α β : Type} {x : Outcome α} {f : α → Outcome β} {b : β},
      x >>= f = .ok b ↔ ∃ a, x = .ok a ∧ f a = .ok b) ∧
    (∀ {α : Type} {a b : α}, (pure a : Outcome α) = .ok b ↔ a = b) ∧
    (∀ {test : Bool} {u : Unit} {text : String}, require test text = .ok u ↔ test = true) ∧
    (∀ {α : Type} {x : Option α} {a : α}, deref x = .ok a ↔ x = some a) ∧
    ∀ {α : Type} {x : Option α} {a : α} {text : String}, orError text x = .ok a ↔ x = some a :=
  ⟨bind_eq_ok, pure_eq_ok, require_eq_ok, deref_eq_ok, orError_eq_ok⟩

/-- `for k := range xs` over a slice of length `n`: the body at each index in
order, stopping at the first fault. -/
def forRange : {n : ℕ} → (Fin n → Outcome α) → Outcome (Fin n → α)
  | 0, _ => .ok fun k => k.elim0
  | n + 1, body => do
    let first ← body ⟨0, Nat.succ_pos n⟩
    let rest ← forRange fun k => body k.succ
    .ok (Fin.cons first rest)

theorem forRange_eq_ok {body : Fin n → Outcome α} {xs : Fin n → α} :
    forRange body = .ok xs ↔ ∀ k, body k = .ok (xs k) := by
  induction n with
  | zero =>
    simp only [forRange, Except.ok.injEq, IsEmpty.forall_iff, iff_true]
    exact funext fun k => k.elim0
  | succ n ih =>
    simp only [forRange, bind_eq_ok, Except.ok.injEq, ih]
    constructor
    · rintro ⟨first, first_ok, rest, rest_ok, rfl⟩ k
      refine Fin.cases ?_ (fun j => ?_) k
      · simpa using first_ok
      · simpa using rest_ok j
    · intro all
      exact ⟨xs 0, all 0, fun k => xs k.succ, fun k => all k.succ, Fin.cons_self_tail xs⟩

/-- The search of the slots for the only one that passes a test. -/
theorem find?_finRange {test : Fin n → Bool} {i : Fin n} (only : ∀ k, test k = true ↔ k = i) :
    (List.finRange n).find? test = some i := by
  have found : ((List.finRange n).find? test).isSome :=
    find?_isSome.mpr ⟨i, mem_finRange i, (only i).mpr rfl⟩
  obtain ⟨k, k_eq⟩ := Option.isSome_iff_exists.mp found
  rw [k_eq, (only k).mp (find?_some k_eq)]

/-- A list traversed by a fallible function, element by element. -/
theorem mapM_eq_ok {ys : List β} :
    xs.mapM f = .ok ys ↔ List.Forall₂ (fun x y => f x = .ok y) xs ys := by
  induction xs generalizing ys with
  | nil =>
    rw [mapM_nil, pure_eq_ok, forall₂_nil_left_iff]
    exact eq_comm
  | cons x xs ih =>
    simp only [mapM_cons, bind_eq_ok, pure_eq_ok, ih, forall₂_cons_left_iff]
    constructor
    · rintro ⟨y, y_ok, rest, rest_ok, rfl⟩
      exact ⟨y, rest, y_ok, rest_ok, rfl⟩
    · rintro ⟨y, rest, y_ok, rest_ok, rfl⟩
      exact ⟨y, y_ok, rest, rest_ok, rfl⟩

theorem exists_of_mem_forall₂ {r : α → β → Prop} {ys : List β} (pairs : List.Forall₂ r xs ys)
    {y : β} (mem : y ∈ ys) : ∃ x ∈ xs, r x y := by
  induction pairs with
  | nil => exact absurd mem (by simp)
  | cons first rest ih =>
    rcases mem_cons.mp mem with rfl | later
    · exact ⟨_, by simp, first⟩
    · obtain ⟨x, x_mem, related⟩ := ih later
      exact ⟨x, mem_cons_of_mem _ x_mem, related⟩

/-- A traversal returns when each call does. -/
theorem mapM_total (each : ∀ x ∈ xs, ∃ y, f x = .ok y) :
    ∃ ys, xs.mapM f = .ok ys := by
  induction xs with
  | nil => exact ⟨[], rfl⟩
  | cons x xs ih =>
    obtain ⟨y, y_ok⟩ := each x (by simp)
    obtain ⟨ys, ys_ok⟩ := ih fun x mem => each x (mem_cons_of_mem _ mem)
    exact ⟨y :: ys, mapM_eq_ok.mpr (.cons y_ok (mapM_eq_ok.mp ys_ok))⟩

/-- A traversal returns when each call does; `key` reads the argument back from the result. -/
theorem mapM_returns {key : β → α} (each : ∀ x ∈ xs, ∃ y, f x = .ok y ∧ key y = x) :
    ∃ ys, xs.mapM f = .ok ys ∧ ys.map key = xs := by
  induction xs with
  | nil => exact ⟨[], rfl, rfl⟩
  | cons x xs ih =>
    obtain ⟨y, y_ok, y_key⟩ := each x (by simp)
    obtain ⟨ys, ys_ok, ys_key⟩ := ih fun x mem => each x (mem_cons_of_mem _ mem)
    refine ⟨y :: ys, mapM_eq_ok.mpr (.cons y_ok (mapM_eq_ok.mp ys_ok)), ?_⟩
    rw [map_cons, y_key, ys_key]

/-! ## Computations without an error text -/

/-- The computation returns or panics. -/
def NoError (x : Outcome α) : Prop := ∀ text, x ≠ .error (.error text)

theorem NoError.returns (clean : NoError x) (no_panic : x ≠ .error .panic) :
    ∃ a, x = .ok a := by
  cases x with
  | ok a => exact ⟨a, rfl⟩
  | error fault =>
    cases fault with
    | error text => exact absurd rfl (clean text)
    | panic => exact absurd rfl no_panic

theorem noError_of_eq_ok (returned : x = .ok a) : NoError x := by
  intro text failed
  rw [returned] at failed
  exact absurd failed (by simp)

theorem noError_pure (a : α) : NoError (pure a) := noError_of_eq_ok rfl

theorem noError_deref (x : Option α) : NoError (deref x) := by
  cases x <;> simp [NoError, deref]

theorem noError_require {test : Bool} (holds : test = true) :
    NoError (require test text) :=
  noError_of_eq_ok (a := ()) (require_eq_ok.mpr holds)

theorem noError_orError {x : Option α} (found : x = some a) :
    NoError (orError text x) :=
  noError_of_eq_ok (orError_eq_ok.mpr found)

/-- A step after a clean one: what it can assume is the value the first one returned. -/
theorem noError_bind (first : NoError x) (second : ∀ a, x = .ok a → NoError (f a)) :
    NoError (x >>= f) := by
  cases x with
  | ok a => exact second a rfl
  | error fault =>
    intro text failed
    exact first text (congrArg Except.error (Except.error.inj failed))

theorem noError_bind_ok (returned : x = .ok a) (second : NoError (f a)) : NoError (x >>= f) := by
  rw [returned]
  exact second

theorem noError_forRange {body : Fin n → Outcome α} (bodies : ∀ k, NoError (body k)) :
    NoError (forRange body) := by
  induction n with
  | zero => exact noError_of_eq_ok rfl
  | succ n ih =>
    exact noError_bind (bodies 0) fun _ _ =>
      noError_bind (ih fun k => bodies k.succ) fun _ _ => noError_of_eq_ok rfl

theorem noError_mapM (each : ∀ x ∈ xs, NoError (f x)) :
    NoError (xs.mapM f) := by
  induction xs with
  | nil => exact noError_pure []
  | cons x xs ih =>
    rw [mapM_cons]
    exact noError_bind (each x (by simp)) fun _ _ =>
      noError_bind (ih fun y mem => each y (mem_cons_of_mem _ mem)) fun _ _ => noError_pure _

theorem noError_foldlM {f : β → α → Outcome β} (each : ∀ b, ∀ x ∈ xs, NoError (f b x)) (b : β) :
    NoError (xs.foldlM f b) := by
  induction xs generalizing b with
  | nil => exact noError_pure b
  | cons x xs ih =>
    rw [foldlM_cons]
    exact noError_bind (each b x (by simp)) fun _ _ =>
      ih (fun b y mem => each b y (mem_cons_of_mem _ mem)) _

end Outcome

end ThresholdDsa
