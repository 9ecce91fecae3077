/-
# Counters that are read and written in two steps

Calls pass a gate by a counter: a call reads the last number stored under its key,
goes on if its own number is the next one, and stores its number in a later step.
Calls that read before another one has stored pass with the same number.

In a run where a call reads only while no other call of its key is between the two
steps, no number passes twice under one key (`Gate.passed_once`), by the invariant
`Gate.Ordered`.
-/
import Mathlib.Logic.Function.Basic
import Mathlib.Data.Int.Basic

namespace ThresholdDsa.NonceGate

open Function
set_option linter.unusedSectionVars false

variable {ι K : Type}

/-- `counted` is between the two steps, `past` after both. -/
inductive Phase where
  | waiting | counted | past | stopped
  deriving DecidableEq

/-- The last number under each key, and how far each call is. -/
structure Gate (ι K : Type) where
  last : K → Option ℤ
  phase : ι → Phase

/-- The number after the last one. -/
def next : Option ℤ → ℤ
  | none => 0
  | some n => n + 1

section

variable [DecidableEq ι] [DecidableEq K] (key : ι → K) (nonce : ι → ℤ)

/-- The steps of calls with fixed keys and numbers.  A call may stop at any time before it is past,
and numbers under keys of no call may change. -/
inductive Step (g : Gate ι K) : Gate ι K → Prop where
  | count (i : ι) (waits : g.phase i = .waiting) (fits : nonce i = next (g.last (key i)))
      (alone : ∀ j, j ≠ i → key j = key i → g.phase j ≠ .counted) :
      Step g { g with phase := update g.phase i .counted }
  | store (i : ι) (counted : g.phase i = .counted) :
      Step g ⟨update g.last (key i) (some (nonce i)), update g.phase i .past⟩
  | stop (i : ι) (before : g.phase i ≠ .past) :
      Step g { g with phase := update g.phase i .stopped }
  | other (last' : K → Option ℤ) (kept : ∀ i, last' (key i) = g.last (key i)) :
      Step g { g with last := last' }

/-- Between its steps a call is alone under its key and its number is the next one; the calls that
are past have different numbers, none above the last. -/
structure Gate.Ordered (g : Gate ι K) : Prop where
  fits : ∀ {i}, g.phase i = .counted → nonce i = next (g.last (key i))
  alone : ∀ {i j}, g.phase i = .counted → g.phase j = .counted → key i = key j → i = j
  below : ∀ {i}, g.phase i = .past → ∃ n, g.last (key i) = some n ∧ nonce i ≤ n
  once : ∀ {i j}, g.phase i = .past → g.phase j = .past → key i = key j → nonce i = nonce j → i = j

variable {key nonce} {g g' : Gate ι K}

/-- A call that is past has a number below the next one. -/
theorem Gate.Ordered.lt_next (ordered : g.Ordered key nonce) {i : ι} (past : g.phase i = .past) :
    nonce i < next (g.last (key i)) := by
  obtain ⟨n, last_eq, le⟩ := ordered.below past
  rw [last_eq]
  simp only [next]
  omega

theorem Gate.Ordered.step (ordered : g.Ordered key nonce) (step : Step key nonce g g') :
    g'.Ordered key nonce := by
  cases step with
  | count i waits fits alone =>
    have phase_of_ne : ∀ {j}, j ≠ i → update g.phase i .counted j = g.phase j :=
      fun ne => update_of_ne ne _ _
    have ne_of_past : ∀ {j}, update g.phase i .counted j = .past → j ≠ i := by
      rintro j past rfl
      simp at past
    refine ⟨fun {j} counted => ?_, fun {j k} counted counted' same => ?_, fun {j} past => ?_,
      fun {j k} past past' same => ?_⟩
    · by_cases eq : j = i
      · exact eq ▸ fits
      · exact ordered.fits (phase_of_ne eq ▸ counted)
    · by_cases eq : j = i <;> by_cases eq' : k = i
      · exact eq.trans eq'.symm
      · exact absurd (phase_of_ne eq' ▸ counted') (alone k eq' (by rw [← same, eq]))
      · exact absurd (phase_of_ne eq ▸ counted) (alone j eq (by rw [same, eq']))
      · exact ordered.alone (phase_of_ne eq ▸ counted) (phase_of_ne eq' ▸ counted') same
    · exact ordered.below (phase_of_ne (ne_of_past past) ▸ past)
    · exact ordered.once (phase_of_ne (ne_of_past past) ▸ past)
        (phase_of_ne (ne_of_past past') ▸ past') same
  | store i counted =>
    have phase_of_ne : ∀ {j}, j ≠ i → update g.phase i .past j = g.phase j :=
      fun ne => update_of_ne ne _ _
    -- another call between its steps has another key
    have key_ne : ∀ {j}, update g.phase i .past j = .counted →
        g.phase j = .counted ∧ key j ≠ key i := by
      intro j between
      have ne : j ≠ i := by
        rintro rfl
        simp at between
      rw [phase_of_ne ne] at between
      exact ⟨between, fun same => ne (ordered.alone between counted same)⟩
    have before : ∀ {j}, j ≠ i → update g.phase i .past j = .past → key j = key i →
        nonce j < nonce i := by
      intro j ne past same
      rw [phase_of_ne ne] at past
      have lt := ordered.lt_next past
      rwa [same, ← ordered.fits counted] at lt
    refine ⟨fun {j} between => ?_, fun between between' same => ?_, fun {j} past => ?_,
      fun {j k} past past' same nonce_eq => ?_⟩
    · obtain ⟨was, ne⟩ := key_ne between
      simp only [update_of_ne ne]
      exact ordered.fits was
    · exact ordered.alone (key_ne between).1 (key_ne between').1 same
    · by_cases same : key j = key i
      · refine ⟨nonce i, by simp [same], ?_⟩
        by_cases eq : j = i
        · exact Int.le_of_eq (congrArg nonce eq)
        · have := before eq past same
          omega
      · have ne : j ≠ i := fun eq => same (congrArg key eq)
        simp only [update_of_ne same]
        exact ordered.below (phase_of_ne ne ▸ past)
    · by_cases eq : j = i <;> by_cases eq' : k = i
      · exact eq.trans eq'.symm
      · subst eq
        have := before eq' past' same.symm
        omega
      · subst eq'
        have := before eq past same
        omega
      · exact ordered.once (phase_of_ne eq ▸ past) (phase_of_ne eq' ▸ past') same nonce_eq
  | stop i _ =>
    have kept : ∀ {j} {p : Phase}, p ≠ .stopped → update g.phase i .stopped j = p →
        g.phase j = p := by
      intro j p ne phase_eq
      have other : j ≠ i := by
        rintro rfl
        exact ne (by simpa using phase_eq.symm)
      rwa [update_of_ne other] at phase_eq
    exact ⟨fun counted => ordered.fits (kept (by simp) counted),
      fun counted counted' => ordered.alone (kept (by simp) counted) (kept (by simp) counted'),
      fun past => ordered.below (kept (by simp) past),
      fun past past' => ordered.once (kept (by simp) past) (kept (by simp) past')⟩
  | other last' kept =>
    refine ⟨fun counted => ?_, ordered.alone, fun past => ?_, ordered.once⟩
    · simpa only [kept] using ordered.fits counted
    · simpa only [kept] using ordered.below past

/-- At most one call with a number is between its steps or past, under one key. -/
theorem Gate.Ordered.passed_once (ordered : g.Ordered key nonce) {i j : ι}
    (passed : g.phase i = .counted ∨ g.phase i = .past)
    (passed' : g.phase j = .counted ∨ g.phase j = .past) (same : key i = key j)
    (nonce_eq : nonce i = nonce j) : i = j := by
  rcases passed with counted | past <;> rcases passed' with counted' | past'
  · exact ordered.alone counted counted' same
  · have lt := ordered.lt_next past'
    rw [← same, ← ordered.fits counted] at lt
    omega
  · have lt := ordered.lt_next past
    rw [same, ← ordered.fits counted'] at lt
    omega
  · exact ordered.once past past' same nonce_eq

theorem Gate.ordered_of_waiting (waiting : ∀ i, g.phase i = .waiting) : g.Ordered key nonce := by
  constructor <;> simp [waiting]

end

end ThresholdDsa.NonceGate
