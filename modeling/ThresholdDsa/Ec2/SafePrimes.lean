/-
# The channel of safe primes and who draws from it

A node has one channel `SafePrimeCh` of four safe primes.  `GenRandomSafePrime` fills it once,
after the start.  `GenerateKeyPair` and `GenerateNtildeH1H2` receive two primes each and put
them back at once, so a prime serves many moduli.  The model is a pool whose steps are the
channel operations of the three functions, in any order and for any number of sessions; a
safe prime is named by the number of the draw it came from.

* `Circulating`: a prime is in the channel, in the loop of `GenRandomSafePrime` or in the hands
  of one call, never in two of these places;
* `ahead_run`: a call that finds two primes in front of it in the channel gets these two,
  whatever is put back meanwhile.

`primes_held_once` says what follows for the moduli.
-/
import ThresholdDsa.Ec2.Ntilde
import ThresholdDsa.Lib.Custody

namespace ThresholdDsa.Ec2.SafePrimes

open Custody List Option

/-! ## `safeprime.go` -/

/-- `none` is a nil number. -/
structure SafePrime where
  (q p : Option ℤ)
  deriving DecidableEq, Repr

/-- `GetP`. -/
def GetP (q : ℤ) : ℤ := q * 2 + 1

/-- `CheckValidate`: `p < 2^(L/2)`, and both numbers pass the primality test. -/
def SafePrime.CheckValidate (probablyPrime : ℤ → Bool) (sp : SafePrime) : Bool :=
  match sp.p, sp.q with
  | some p, some q => p < 2 ^ 1024 && probablyPrime q && GetP q == p && probablyPrime p
  | _, _ => false

/-- What comes from outside: `ProbablyPrime`, taken to accept primes only, and the results of
`GetSafeRandomPrimeInt`, the valid ones taken to be different. -/
structure Draws where
  probablyPrime : ℤ → Bool
  draw : ℕ → SafePrime
  prime_of_probablyPrime : ∀ n, probablyPrime n = true → ∃ m : ℕ, m.Prime ∧ n = m
  fresh : ∀ i j, (draw i).CheckValidate probablyPrime = true →
    (draw j).CheckValidate probablyPrime = true → (draw i).p = (draw j).p → i = j

def Draws.Valid (E : Draws) (i : ℕ) : Prop := (E.draw i).CheckValidate E.probablyPrime = true

variable {E : Draws}

theorem Draws.Valid.prime {i : ℕ} (valid : E.Valid i) :
    ∃ m : ℕ, m.Prime ∧ (E.draw i).p = some (m : ℤ) := by
  unfold Draws.Valid SafePrime.CheckValidate at valid
  split at valid
  · next p q p_eq q_eq =>
    rw [Bool.and_eq_true] at valid
    obtain ⟨m, m_prime, rfl⟩ := E.prime_of_probablyPrime p valid.2
    exact ⟨m, m_prime, p_eq⟩
  · exact absurd valid (by simp)

/-! ## The pool -/

inductive Kind where
  | paillier
  | ntilde
  deriving DecidableEq, Repr

/-- `GenerateKeyPair` or `GenerateNtildeH1H2` of a keygen or reshare session. -/
structure Call where
  session : ℕ
  kind : Kind
  deriving DecidableEq, Repr

/-- How far a call is with the channel: received nothing, one prime or both, put the first
back, put both back; or returned nil without putting anything back. -/
inductive Progress where
  | idle
  | one (sp1 : ℕ)
  | both (sp1 sp2 : ℕ)
  | last (sp1 sp2 : ℕ)
  | made (sp1 sp2 : ℕ)
  | failed
  deriving DecidableEq, Repr

/-- Where the loop of `GenRandomSafePrime` is: at its first test, at the send, at its last test,
or left. -/
inductive Loop where
  | top
  | sending (sp : ℕ)
  | bottom
  | stopped
  deriving DecidableEq, Repr

structure Pool where
  SafePrimeCh : List ℕ
  /-- How often `GetSafeRandomPrimeInt` was called. -/
  drawn : ℕ
  loop : Loop
  calls : Call → Progress

/-- `make(chan SafePrime, 4)`. -/
def capacity : ℕ := 4

def Pool.start : Pool :=
  { SafePrimeCh := [], drawn := 0, loop := .top, calls := fun _ => .idle }

def Pool.set (s : Pool) (c : Call) (progress : Progress) : Pool :=
  { s with calls := Function.update s.calls c progress }

/-- A send; it waits while the channel is full. -/
def Pool.send (s : Pool) (sp : ℕ) : Option Pool :=
  if s.SafePrimeCh.length < capacity then
    some { s with SafePrimeCh := s.SafePrimeCh ++ [sp] }
  else none

/-- A receive; it waits while the channel is empty. -/
def Pool.receive (s : Pool) : Option (ℕ × Pool) :=
  match s.SafePrimeCh with
  | [] => none
  | sp :: rest => some (sp, { s with SafePrimeCh := rest })

/-- The next part of `GenRandomSafePrime`, up to its next look at the channel. -/
def Pool.generate (E : Draws) (s : Pool) : Option Pool :=
  match s.loop with
  | .top =>
    if s.SafePrimeCh.length < 4 then
      if (E.draw s.drawn).CheckValidate E.probablyPrime then
        some { s with drawn := s.drawn + 1, loop := .sending s.drawn }
      else some { s with drawn := s.drawn + 1, loop := .bottom }
    else some { s with loop := .bottom }
  | .sending sp => (s.send sp).map fun s => { s with loop := .bottom }
  | .bottom =>
    if s.SafePrimeCh.length = 4 then some { s with loop := .stopped }
    else some { s with loop := .top }
  | .stopped => none

/-- The next channel operation of a call. -/
def Pool.go (E : Draws) (s : Pool) (c : Call) : Option Pool :=
  match s.calls c with
  | .idle => s.receive.map fun (sp1, s) => s.set c (.one sp1)
  | .one sp1 => s.receive.map fun (sp2, s) => s.set c (.both sp1 sp2)
  | .both sp1 sp2 =>
    if (E.draw sp1).p = none ∨ (E.draw sp2).p = none then some (s.set c .failed)
    else (s.send sp1).map fun s => s.set c (.last sp1 sp2)
  | .last sp1 sp2 => (s.send sp2).map fun s => s.set c (.made sp1 sp2)
  | .made _ _ => none
  | .failed => none

inductive Action where
  | generate
  | go (c : Call)
  deriving DecidableEq, Repr

def Pool.act (E : Draws) (s : Pool) : Action → Option Pool
  | .generate => s.generate E
  | .go c => s.go E c

/-- The pool after the actions, in their order; `none` if one of them has to wait. -/
def Pool.run (E : Draws) : Pool → List Action → Option Pool
  | s, [] => some s
  | s, a :: rest => (s.act E a).bind fun s' => s'.run E rest

/-- The draws a call has received. -/
def Progress.taken : Progress → List ℕ
  | .idle | .failed => []
  | .one sp1 => [sp1]
  | .both sp1 sp2 | .last sp1 sp2 | .made sp1 sp2 => [sp1, sp2]

/-- The draws a call has received and not put back. -/
def Progress.inHand : Progress → List ℕ
  | .idle | .made _ _ | .failed => []
  | .one sp1 => [sp1]
  | .both sp1 sp2 => [sp1, sp2]
  | .last _ sp2 => [sp2]

/-- The call has made its modulus of the two draws. -/
def Progress.Uses (progress : Progress) (a b : ℕ) : Prop :=
  progress = .both a b ∨ progress = .last a b ∨ progress = .made a b

theorem Progress.Uses.taken {progress : Progress} {a b : ℕ} (uses : progress.Uses a b) :
    progress.taken = [a, b] := by
  rcases uses with rfl | rfl | rfl <;> rfl

/-! ## Where the primes are -/

inductive Place where
  | channel
  | generator
  | call (c : Call)
  deriving DecidableEq, Repr

def Loop.inHand : Loop → List ℕ
  | .sending sp => [sp]
  | .top | .bottom | .stopped => []

def Pool.held (s : Pool) : Place → List ℕ
  | .channel => s.SafePrimeCh
  | .generator => s.loop.inHand
  | .call c => (s.calls c).inHand

theorem held_set_self (s : Pool) (c : Call) (progress : Progress) :
    (s.set c progress).held (.call c) = progress.inHand := by
  simp [Pool.held, Pool.set]

variable {c : Call}

theorem held_set_of_ne (s : Pool) (progress : Progress) {p : Place}
    (ne : p ≠ .call c) : (s.set c progress).held p = s.held p := by
  cases p with
  | channel => rfl
  | generator => rfl
  | call c' =>
    have other : c' ≠ c := fun same => ne (congrArg Place.call same)
    simp [Pool.held, Pool.set, other]

theorem calls_set_of_ne (s : Pool) {c' : Call} (progress : Progress) (ne : c' ≠ c) :
    (s.set c progress).calls c' = s.calls c' :=
  Function.update_of_ne ne _ _

@[simp] theorem calls_set_self (s : Pool) (c : Call) (progress : Progress) :
    (s.set c progress).calls c = progress :=
  Function.update_self ..

variable {s s' : Pool}

theorem send_eq_some_iff {sp : ℕ} : s.send sp = some s' ↔
    s.SafePrimeCh.length < capacity ∧ s' = { s with SafePrimeCh := s.SafePrimeCh ++ [sp] } := by
  unfold Pool.send
  split
  · next room => simp [room, eq_comm]
  · next full => simp [full]

theorem receive_eq_some_iff {sp : ℕ} : s.receive = some (sp, s') ↔
    ∃ rest, s.SafePrimeCh = sp :: rest ∧ s' = { s with SafePrimeCh := rest } := by
  unfold Pool.receive
  split
  · next empty => simp [empty]
  next sp' rest channel =>
  rw [channel]
  constructor
  · rintro ⟨⟩
    exact ⟨rest, rfl, rfl⟩
  · rintro ⟨rest', channel', rfl⟩
    obtain ⟨rfl, rfl⟩ := List.cons.inj channel'
    rfl

/-- What an operation of a call is: a prime comes out of the channel into its hands, or goes
back from them; or the call gives up. -/
theorem go_cases (goes : s.go E c = some s') :
    (∃ sp rest progress, s.SafePrimeCh = sp :: rest ∧
      s' = { s with SafePrimeCh := rest }.set c progress ∧
      (s.calls c = .idle ∧ progress = .one sp ∨
        ∃ sp1, s.calls c = .one sp1 ∧ progress = .both sp1 sp)) ∨
    (∃ sp progress, s' = { s with SafePrimeCh := s.SafePrimeCh ++ [sp] }.set c progress ∧
      ((∃ sp2, s.calls c = .both sp sp2 ∧ progress = .last sp sp2) ∨
        ∃ sp1, s.calls c = .last sp1 sp ∧ progress = .made sp1 sp)) ∨
    (∃ sp1 sp2, s.calls c = .both sp1 sp2 ∧ ((E.draw sp1).p = none ∨ (E.draw sp2).p = none) ∧
      s' = s.set c .failed) := by
  unfold Pool.go at goes
  split at goes
  · next idle =>
    obtain ⟨⟨sp, t⟩, received, rfl⟩ := map_eq_some_iff.mp goes
    obtain ⟨rest, channel, rfl⟩ := receive_eq_some_iff.mp received
    exact .inl ⟨sp, rest, _, channel, rfl, .inl ⟨idle, rfl⟩⟩
  · next sp1 one =>
    obtain ⟨⟨sp, t⟩, received, rfl⟩ := map_eq_some_iff.mp goes
    obtain ⟨rest, channel, rfl⟩ := receive_eq_some_iff.mp received
    exact .inl ⟨sp, rest, _, channel, rfl, .inr ⟨sp1, one, rfl⟩⟩
  · next sp1 sp2 both =>
    split at goes
    · next missing => exact .inr (.inr ⟨sp1, sp2, both, missing, (Option.some.inj goes).symm⟩)
    · obtain ⟨t, sent, rfl⟩ := map_eq_some_iff.mp goes
      obtain ⟨-, rfl⟩ := send_eq_some_iff.mp sent
      exact .inr (.inl ⟨sp1, _, rfl, .inl ⟨sp2, both, rfl⟩⟩)
  · next sp1 sp2 last =>
    obtain ⟨t, sent, rfl⟩ := map_eq_some_iff.mp goes
    obtain ⟨-, rfl⟩ := send_eq_some_iff.mp sent
    exact .inr (.inl ⟨sp2, _, rfl, .inr ⟨sp1, last, rfl⟩⟩)
  · exact absurd goes (by simp)
  · exact absurd goes (by simp)

/-- What a part of `GenRandomSafePrime` is: nothing for the primes, a valid draw, or a send. -/
theorem generate_cases (generates : s.generate E = some s') :
    (s'.SafePrimeCh = s.SafePrimeCh ∧ s.loop.inHand = [] ∧ s'.loop.inHand = [] ∧
      s.drawn ≤ s'.drawn ∧ s'.calls = s.calls) ∨ (E.Valid s.drawn ∧ s.loop.inHand = [] ∧
      s' = { s with drawn := s.drawn + 1, loop := .sending s.drawn }) ∨
    (∃ sp, s.loop = .sending sp ∧
      s' = { s with SafePrimeCh := s.SafePrimeCh ++ [sp], loop := .bottom }) := by
  unfold Pool.generate at generates
  split at generates
  · next top =>
    split at generates
    · split at generates
      · next valid =>
        exact .inr (.inl ⟨valid, by rw [top]; rfl, (Option.some.inj generates).symm⟩)
      · obtain rfl := Option.some.inj generates
        exact .inl ⟨rfl, by rw [top]; rfl, rfl, Nat.le_succ _, rfl⟩
    · obtain rfl := Option.some.inj generates
      exact .inl ⟨rfl, by rw [top]; rfl, rfl, Nat.le_refl _, rfl⟩
  · next sp sending =>
    obtain ⟨t, sent, rfl⟩ := map_eq_some_iff.mp generates
    obtain ⟨-, rfl⟩ := send_eq_some_iff.mp sent
    exact .inr (.inr ⟨sp, sending, rfl⟩)
  · next bottom =>
    split at generates
    all_goals
      obtain rfl := Option.some.inj generates
      exact .inl ⟨rfl, by rw [bottom]; rfl, rfl, Nat.le_refl _, rfl⟩
  · exact absurd generates (by simp)

/-! ## One place at a time -/

/-- Every prime in circulation is a valid draw and in one place, and the moduli made so far are
of two different valid draws each. -/
structure Circulating (E : Draws) (s : Pool) : Prop where
  apart : Apart s.held
  known : ∀ {p k}, k ∈ s.held p → k < s.drawn ∧ E.Valid k
  pairs : ∀ {c a b}, (s.calls c).Uses a b → a ≠ b ∧ E.Valid a ∧ E.Valid b

theorem circulating_start (E : Draws) : Circulating E Pool.start where
  apart := by
    constructor
    · intro p
      cases p <;> exact nodup_nil
    · intro p q x mem
      cases p <;> exact absurd mem not_mem_nil
  known {p k} mem := by cases p <;> exact absurd mem not_mem_nil
  pairs {c a b} uses := by
    rcases uses with uses | uses | uses <;> cases uses

namespace Circulating

variable {E : Draws} {s : Pool} {s' : Pool} (circulating : Circulating E s)

include circulating

/-- A prime goes from one place to another. -/
theorem move {p q : Place} {k : ℕ} (ne : p ≠ q) (leaves : List.Perm (s.held p) (k :: s'.held p))
    (enters : List.Perm (s'.held q) (k :: s.held q))
    (others : ∀ r, r ≠ p → r ≠ q → s'.held r = s.held r) (drawn : s'.drawn = s.drawn)
    (pairs : ∀ {c a b}, (s'.calls c).Uses a b → a ≠ b ∧ E.Valid a ∧ E.Valid b) :
    Circulating E s' where
  apart := circulating.apart.move ne leaves enters others
  known mem := by
    obtain ⟨r, mem⟩ := exists_mem_of_move leaves enters others mem
    rw [drawn]
    exact circulating.known mem
  pairs := pairs

variable {c : Call} {progress : Progress}

theorem receive {sp : ℕ} {rest : List ℕ} (channel : s.SafePrimeCh = sp :: rest)
    (enters : List.Perm progress.inHand (sp :: (s.calls c).inHand))
    (pairs : ∀ {a b}, progress.Uses a b → a ∈ (s.calls c).inHand ∧ b = sp) :
    Circulating E ({ s with SafePrimeCh := rest }.set c progress) := by
  have ne : Place.channel ≠ .call c := by simp
  have front : sp ∈ s.held .channel := by simp [Pool.held, channel]
  refine circulating.move ne (k := sp) ?_ ?_ ?_ rfl ?_
  · rw [held_set_of_ne _ _ ne]
    exact List.Perm.of_eq channel
  · rw [held_set_self]
    exact enters
  · intro p at_channel at_call
    rw [held_set_of_ne _ _ at_call]
    cases p with
    | channel => exact absurd rfl at_channel
    | generator => rfl
    | call c' => rfl
  intro c' a b uses
  by_cases same : c' = c
  · subst same
    rw [calls_set_self] at uses
    obtain ⟨in_hand, rfl⟩ := pairs uses
    refine ⟨?_, (circulating.known (p := .call c') in_hand).2, (circulating.known front).2⟩
    rintro rfl
    exact absurd (circulating.apart.disjoint (q := .call c') front in_hand) (by simp)
  · rw [calls_set_of_ne _ _ same] at uses
    exact circulating.pairs uses

theorem send {sp : ℕ} (leaves : List.Perm (s.calls c).inHand (sp :: progress.inHand))
    (pairs : ∀ {a b}, progress.Uses a b → (s.calls c).Uses a b) :
    Circulating E ({ s with SafePrimeCh := s.SafePrimeCh ++ [sp] }.set c progress) := by
  have ne : Place.channel ≠ .call c := by simp
  refine circulating.move ne.symm (k := sp) ?_ ?_ ?_ rfl ?_
  · rw [held_set_self]
    exact leaves
  · rw [held_set_of_ne _ _ ne]
    exact perm_append_singleton sp s.SafePrimeCh
  · intro p at_call at_channel
    rw [held_set_of_ne _ _ at_call]
    cases p with
    | channel => exact absurd rfl at_channel
    | generator => rfl
    | call c' => rfl
  intro c' a b uses
  by_cases same : c' = c
  · subst same
    rw [calls_set_self] at uses
    exact circulating.pairs (pairs uses)
  · rw [calls_set_of_ne _ _ same] at uses
    exact circulating.pairs uses

theorem go (goes : s.go E c = some s') : Circulating E s' := by
  rcases go_cases goes with ⟨sp, rest, progress, channel, rfl, before⟩ |
    ⟨sp, progress, rfl, before⟩ | ⟨sp1, sp2, both, missing, -⟩
  · rcases before with ⟨idle, rfl⟩ | ⟨sp1, one, rfl⟩
    · refine circulating.receive channel ?_ ?_
      · rw [idle]
        rfl
      · rintro a b (uses | uses | uses) <;> cases uses
    · refine circulating.receive channel ?_ ?_
      · rw [one]
        exact List.Perm.swap sp sp1 []
      · rintro a b (uses | uses | uses) <;> cases uses
        exact ⟨by simp [one, Progress.inHand], rfl⟩
  · rcases before with ⟨sp2, both, rfl⟩ | ⟨sp1, last, rfl⟩
    · refine circulating.send ?_ ?_
      · rw [both]
        rfl
      · rintro a b (uses | uses | uses) <;> cases uses
        exact .inl both
    · refine circulating.send ?_ ?_
      · rw [last]
        rfl
      · rintro a b (uses | uses | uses) <;> cases uses
        exact .inr (.inl last)
  · -- valid primes are never nil
    obtain ⟨-, valid1, valid2⟩ := circulating.pairs (.inl both)
    obtain ⟨m1, -, p1⟩ := valid1.prime
    obtain ⟨m2, -, p2⟩ := valid2.prime
    simp [p1, p2] at missing

theorem generate (generates : s.generate E = some s') : Circulating E s' := by
  rcases generate_cases generates with ⟨channel, empty, empty', drawn, calls⟩ |
    ⟨valid, empty, rfl⟩ | ⟨sp, sending, rfl⟩
  · have held : s'.held = s.held := by
      funext p
      cases p with
      | channel => exact channel
      | generator => exact empty'.trans empty.symm
      | call c => rw [Pool.held, Pool.held, calls]
    refine ⟨held ▸ circulating.apart, fun {p k} mem => ?_, fun {c a b} uses => ?_⟩
    · rw [held] at mem
      obtain ⟨below, valid⟩ := circulating.known mem
      exact ⟨below.trans_le drawn, valid⟩
    · rw [calls] at uses
      exact circulating.pairs uses
  · refine ⟨circulating.apart.enter (q := .generator) (k := s.drawn) ?_ ?_ ?_,
      fun {p k} mem => ?_, circulating.pairs⟩
    · intro p mem
      exact absurd (circulating.known mem).1 (lt_irrefl _)
    · exact List.Perm.of_eq (congrArg (s.drawn :: ·) empty.symm)
    · intro p elsewhere
      cases p with
      | channel => rfl
      | generator => exact absurd rfl elsewhere
      | call c => rfl
    · cases p with
      | channel => exact (circulating.known (p := .channel) mem).imp_left Nat.lt_succ_of_lt
      | generator =>
        obtain rfl := mem_singleton.mp mem
        exact ⟨Nat.lt_succ_self _, valid⟩
      | call c => exact (circulating.known (p := .call c) mem).imp_left Nat.lt_succ_of_lt
  · refine circulating.move (k := sp) (p := .generator) (q := .channel) (by simp) ?_ ?_ ?_ rfl
      circulating.pairs
    · rw [Pool.held, sending]
      rfl
    · exact perm_append_singleton sp s.SafePrimeCh
    · intro p at_generator at_channel
      cases p with
      | channel => exact absurd rfl at_channel
      | generator => exact absurd rfl at_generator
      | call c => rfl

theorem act {action : Action} (acts : s.act E action = some s') : Circulating E s' := by
  cases action with
  | generate => exact circulating.generate acts
  | go c => exact circulating.go acts

theorem run {actions : List Action} (runs : s.run E actions = some s') : Circulating E s' := by
  induction actions generalizing s with
  | nil => exact Option.some.inj runs ▸ circulating
  | cons action actions ih =>
    obtain ⟨t, acts, runs⟩ := bind_eq_some_iff.mp runs
    exact ih (circulating.act acts) runs

end Circulating

/-! ## The two primes in front -/

/-- The call has primes to receive. -/
def Progress.Receives : Progress → Prop
  | .idle | .one _ => True
  | .both _ _ | .last _ _ | .made _ _ | .failed => False

/-- The draws `x` and `y` are the next ones for the call `d`, or its own already. -/
def Ahead (d : Call) (x y : ℕ) (s : Pool) : Prop :=
  (s.calls d = .idle ∧ [x, y] <+: s.SafePrimeCh) ∨
  (s.calls d = .one x ∧ [y] <+: s.SafePrimeCh) ∨
  (s.calls d).Uses x y ∨ s.calls d = .failed

section

variable {E : Draws} {s s' : Pool} {d : Call} {x y : ℕ} (ahead : Ahead d x y s)

include ahead

/-- Primes that are put into the channel come behind those in front. -/
theorem Ahead.append (calls : s'.calls d = s.calls d)
    (channel : s.SafePrimeCh <+: s'.SafePrimeCh) : Ahead d x y s' := by
  unfold Ahead
  rw [calls]
  rcases ahead with ⟨idle, front⟩ | ⟨one, front⟩ | uses
  · exact .inl ⟨idle, front.trans channel⟩
  · exact .inr (.inl ⟨one, front.trans channel⟩)
  · exact .inr (.inr uses)

theorem Ahead.go_self (goes : s.go E d = some s') : Ahead d x y s' := by
  rcases go_cases goes with ⟨sp, rest, progress, channel, rfl, before⟩ |
    ⟨sp, progress, rfl, before⟩ | ⟨sp1, sp2, both, missing, rfl⟩
  · unfold Ahead at ahead ⊢
    rw [channel] at ahead
    rw [calls_set_self]
    rcases before with ⟨idle, rfl⟩ | ⟨sp1, one, rfl⟩
    · simp only [idle, Progress.Uses, reduceCtorEq, true_and, false_and, or_false] at ahead
      obtain ⟨rfl, next⟩ := cons_prefix_cons.mp ahead
      exact .inr (.inl ⟨rfl, next⟩)
    · simp only [one, Progress.Uses, reduceCtorEq, false_and, false_or, or_false,
        Progress.one.injEq] at ahead
      obtain ⟨rfl, front⟩ := ahead
      obtain ⟨rfl, -⟩ := cons_prefix_cons.mp front
      exact .inr (.inr (.inl (.inl rfl)))
  · unfold Ahead at ahead ⊢
    rw [calls_set_self]
    rcases before with ⟨sp2, both, rfl⟩ | ⟨sp1, last, rfl⟩
    · simp only [both, Progress.Uses, reduceCtorEq, false_and, false_or, or_false,
        Progress.both.injEq] at ahead
      obtain ⟨rfl, rfl⟩ := ahead
      exact .inr (.inr (.inl (.inr (.inl rfl))))
    · simp only [last, Progress.Uses, reduceCtorEq, false_and, false_or, or_false,
        Progress.last.injEq] at ahead
      obtain ⟨rfl, rfl⟩ := ahead
      exact .inr (.inr (.inl (.inr (.inr rfl))))
  · exact .inr (.inr (.inr (calls_set_self ..)))

variable {action : Action}

theorem Ahead.act (acts : s.act E action = some s')
    (others : ∀ c, action = .go c → c ≠ d → ¬ (s.calls c).Receives) : Ahead d x y s' := by
  cases action with
  | generate =>
    rcases generate_cases acts with ⟨channel, -, -, -, calls⟩ | ⟨-, -, rfl⟩ | ⟨sp, -, rfl⟩
    · exact ahead.append (congrFun calls d) (channel ▸ prefix_rfl)
    · exact ahead.append rfl prefix_rfl
    · exact ahead.append rfl (prefix_append _ _)
  | go c =>
    by_cases same : c = d
    · subst same
      exact ahead.go_self acts
    have puts := others c rfl same
    rcases go_cases acts with ⟨sp, rest, progress, -, -, before⟩ | ⟨sp, progress, rfl, -⟩ |
      ⟨sp1, sp2, -, -, rfl⟩
    · rcases before with ⟨idle, -⟩ | ⟨sp1, one, -⟩
      · exact absurd (idle ▸ trivial) puts
      · exact absurd (one ▸ trivial) puts
    · exact ahead.append (calls_set_of_ne _ _ (Ne.symm same)) (prefix_append _ _)
    · exact ahead.append (calls_set_of_ne _ _ (Ne.symm same)) prefix_rfl

omit ahead in
/-- A call that has received its primes receives no more. -/
theorem not_receives_act (acts : s.act E action = some s')
    (puts : ¬ (s.calls c).Receives) : ¬ (s'.calls c).Receives := by
  cases action with
  | generate =>
    rcases generate_cases acts with ⟨-, -, -, -, calls⟩ | ⟨-, -, rfl⟩ | ⟨sp, -, rfl⟩
    · rwa [calls]
    · exact puts
    · exact puts
  | go c' =>
    by_cases same : c = c'
    · subst same
      rcases go_cases acts with ⟨sp, rest, progress, -, -, before⟩ | ⟨sp, progress, rfl, before⟩ |
        ⟨sp1, sp2, -, -, rfl⟩
      · rcases before with ⟨idle, -⟩ | ⟨sp1, one, -⟩
        · exact absurd (idle ▸ trivial) puts
        · exact absurd (one ▸ trivial) puts
      · rw [calls_set_self]
        rcases before with ⟨sp2, -, rfl⟩ | ⟨sp1, -, rfl⟩ <;> exact id
      · rw [calls_set_self]
        exact id
    · rcases go_cases acts with ⟨sp, rest, progress, -, rfl, -⟩ | ⟨sp, progress, rfl, -⟩ |
        ⟨sp1, sp2, -, -, rfl⟩
      all_goals
        rw [calls_set_of_ne _ _ same]
        exact puts

/-- As long as no other call receives, the two primes in front stay there for `d`. -/
theorem Ahead.run {actions : List Action} (runs : s.run E actions = some s')
    (others : ∀ c, .go c ∈ actions → c ≠ d → ¬ (s.calls c).Receives) : Ahead d x y s' := by
  induction actions generalizing s with
  | nil => exact Option.some.inj runs ▸ ahead
  | cons action actions ih =>
    obtain ⟨t, acts, runs⟩ := bind_eq_some_iff.mp runs
    refine ih (ahead.act acts fun c at_head => others c (at_head ▸ mem_cons_self)) runs ?_
    intro c mem ne
    exact not_receives_act acts (others c (mem_cons_of_mem _ mem) ne)

end

/-! ## The moduli -/

/-- A product of primes of different draws, and a product of two others, have no common factor. -/
theorem isCoprime_moduli {a b x y : ℕ} {p q p' q' : ℤ}
    (a_valid : E.Valid a) (b_valid : E.Valid b) (x_valid : E.Valid x) (y_valid : E.Valid y)
    (ax : a ≠ x) (ay : a ≠ y) (bx : b ≠ x) (by_ : b ≠ y)
    (p_eq : (E.draw a).p = some p) (q_eq : (E.draw b).p = some q)
    (p'_eq : (E.draw x).p = some p') (q'_eq : (E.draw y).p = some q') :
    IsCoprime (p * q) (p' * q') := by
  have pair : ∀ {i j : ℕ} {u v : ℤ}, E.Valid i → E.Valid j → i ≠ j → (E.draw i).p = some u →
      (E.draw j).p = some v → IsCoprime u v := by
    intro i j u v i_valid j_valid ne u_eq v_eq
    obtain ⟨m, m_prime, m_eq⟩ := i_valid.prime
    obtain ⟨l, l_prime, l_eq⟩ := j_valid.prime
    obtain rfl := Option.some.inj (u_eq.symm.trans m_eq)
    obtain rfl := Option.some.inj (v_eq.symm.trans l_eq)
    rw [Nat.isCoprime_iff_coprime, Nat.coprime_primes m_prime l_prime]
    rintro rfl
    exact ne (E.fresh i j i_valid j_valid (u_eq.trans v_eq.symm))
  exact ((pair a_valid x_valid ax p_eq p'_eq).mul_right (pair a_valid y_valid ay p_eq q'_eq)).mul_left
    ((pair b_valid x_valid bx q_eq p'_eq).mul_right (pair b_valid y_valid by_ q_eq q'_eq))

/-- In every run each modulus is of two different primes; a prime that a call has received is
in no other call's hands and not in the channel until it is put back; and a session whose
Paillier primes are received with two more in the channel, from which no other call then
receives, has a Paillier modulus and an `Ntilde` without a common factor. -/
theorem primes_held_once (E : Draws) {actions : List Action} {s : Pool}
    (runs : Pool.start.run E actions = some s) :
    (∀ c a b, (s.calls c).Uses a b → ∃ p q : ℕ, p.Prime ∧ q.Prime ∧ p ≠ q ∧
      (E.draw a).p = some (p : ℤ) ∧ (E.draw b).p = some (q : ℤ)) ∧
    (∀ c k, k ∈ (s.calls c).inHand →
      k ∉ s.SafePrimeCh ∧ ∀ c', k ∈ (s.calls c').inHand → c' = c) ∧
    (∀ n a b later s', s.calls ⟨n, .paillier⟩ = .both a b → s.calls ⟨n, .ntilde⟩ = .idle →
      2 ≤ s.SafePrimeCh.length →
      (∀ c, .go c ∈ later → c ≠ ⟨n, .ntilde⟩ → ¬ (s.calls c).Receives) →
      s.run E later = some s' → ∀ x y, (s'.calls ⟨n, .ntilde⟩).Uses x y →
      ∀ p q, (E.draw a).p = some p → (E.draw b).p = some q → ∀ d : NtildeDraws,
      (E.draw x).p = some d.P1 → (E.draw y).p = some d.P2 → ∀ pk sk length keys,
      GenerateKeyPair p q = some (pk, sk) → GenerateNtildeH1H2 length d = some keys →
      IsCoprime pk.N keys.ntildeH1H2.Ntilde) := by
  have circulating := (circulating_start E).run runs
  refine ⟨?_, ?_, ?_⟩
  · intro c a b uses
    obtain ⟨ne, a_valid, b_valid⟩ := circulating.pairs uses
    obtain ⟨p, p_prime, p_eq⟩ := a_valid.prime
    obtain ⟨q, q_prime, q_eq⟩ := b_valid.prime
    refine ⟨p, q, p_prime, q_prime, ?_, p_eq, q_eq⟩
    rintro rfl
    exact ne (E.fresh a b a_valid b_valid (p_eq.trans q_eq.symm))
  · intro c k mem
    constructor
    · intro in_channel
      exact absurd (circulating.apart.disjoint (p := .channel) (q := .call c) in_channel mem)
        (by simp)
    · intro c' mem'
      exact Place.call.inj (circulating.apart.disjoint mem' mem)
  · intro n a b later s' both idle two others more x y uses p q p_eq q_eq d P1_eq P2_eq pk sk
      length keys key_pair ntilde
    obtain ⟨u, v, rest, channel⟩ : ∃ u v rest, s.SafePrimeCh = u :: v :: rest := by
      match held : s.SafePrimeCh with
      | [] => simp [held] at two
      | [_] => simp [held] at two
      | u :: v :: rest => exact ⟨u, v, rest, rfl⟩
    have ahead : Ahead ⟨n, .ntilde⟩ u v s' :=
      Ahead.run (.inl ⟨idle, channel ▸ ⟨rest, rfl⟩⟩) more others
    obtain ⟨rfl, rfl⟩ : x = u ∧ y = v := by
      have taken := uses.taken
      rcases ahead with ⟨at_idle, -⟩ | ⟨at_one, -⟩ | used | failed
      · simp [at_idle, Progress.taken] at taken
      · simp [at_one, Progress.taken] at taken
      · rw [used.taken] at taken
        simpa [eq_comm] using taken
      · simp [failed, Progress.taken] at taken
    -- the primes in front are not those in the hands of the Paillier call
    have apart : ∀ {k l}, k ∈ [a, b] → l ∈ s.SafePrimeCh → k ≠ l := by
      rintro k l mem in_channel rfl
      have in_hand : k ∈ s.held (.call ⟨n, .paillier⟩) := by
        rw [Pool.held, both]
        exact mem
      exact absurd (circulating.apart.disjoint (p := .channel) in_channel in_hand) (by simp)
    have x_mem : x ∈ s.SafePrimeCh := by simp [channel]
    have y_mem : y ∈ s.SafePrimeCh := by simp [channel]
    obtain ⟨-, a_valid, b_valid⟩ := circulating.pairs (.inl both)
    rw [(generateKeyPair_fields key_pair).1, (generateNtilde_fields ntilde).1]
    exact isCoprime_moduli a_valid b_valid (circulating.known (p := .channel) x_mem).2
      (circulating.known (p := .channel) y_mem).2 (apart (by simp) x_mem) (apart (by simp) y_mem)
      (apart (by simp) x_mem) (apart (by simp) y_mem) p_eq q_eq P1_eq P2_eq

/-! ## Four primes -/

/-- The safe primes 5, 7, 11 and 23, and no more. -/
def fourDraw : ℕ → SafePrime
  | 0 => ⟨some 2, some 5⟩
  | 1 => ⟨some 3, some 7⟩
  | 2 => ⟨some 5, some 11⟩
  | 3 => ⟨some 11, some 23⟩
  | _ + 4 => ⟨none, none⟩

def fourTest (n : ℤ) : Bool := n ∈ [(2 : ℤ), 3, 5, 7, 11, 23]

theorem prime_of_fourTest (n : ℤ) (passes : fourTest n = true) : ∃ m : ℕ, m.Prime ∧ n = m := by
  simp only [fourTest, mem_cons, not_mem_nil, or_false, decide_eq_true_eq] at passes
  rcases passes with rfl | rfl | rfl | rfl | rfl | rfl
  exacts [⟨2, by norm_num, rfl⟩, ⟨3, by norm_num, rfl⟩, ⟨5, by norm_num, rfl⟩,
    ⟨7, by norm_num, rfl⟩, ⟨11, by norm_num, rfl⟩, ⟨23, by norm_num, rfl⟩]

theorem fresh_fourDraw (i j : ℕ) (i_valid : (fourDraw i).CheckValidate fourTest = true)
    (j_valid : (fourDraw j).CheckValidate fourTest = true) (same : (fourDraw i).p = (fourDraw j).p) :
    i = j := by
  have small : ∀ {k}, (fourDraw k).CheckValidate fourTest = true → k < 4 := by
    intro k valid
    by_contra large
    obtain ⟨l, rfl⟩ := Nat.exists_eq_add_of_le' (Nat.le_of_not_lt large)
    exact absurd valid (by simp [fourDraw, SafePrime.CheckValidate])
  have both : ∀ i < 4, ∀ j < 4, (fourDraw i).p = (fourDraw j).p → i = j := by decide
  exact both i (small i_valid) j (small j_valid) same

def fourPrimes : Draws where
  probablyPrime := fourTest
  draw := fourDraw
  prime_of_probablyPrime := prime_of_fourTest
  fresh := fresh_fourDraw

/-- `GenRandomSafePrime` alone, until it has left its loop. -/
def filling : List Action := List.replicate 12 .generate

/-- A call from its first to its last operation. -/
def whole (session : ℕ) (kind : Kind) : List Action := List.replicate 4 (.go ⟨session, kind⟩)

/-- A session alone: its Paillier primes are 5 and 7, those of its `Ntilde` 11 and 23. -/
theorem primes_held_once_alone : ∃ (s s' : Pool) (pk : PublicKey) (sk : PrivateKey)
      (keys : NtildeKeys),
    Pool.start.run fourPrimes (filling ++ List.replicate 2 (.go ⟨0, .paillier⟩)) = some s ∧
    s.run fourPrimes (List.replicate 2 (.go ⟨0, .paillier⟩) ++ whole 0 .ntilde) = some s' ∧
    (s.calls ⟨0, .paillier⟩).Uses 0 1 ∧ (s'.calls ⟨0, .ntilde⟩).Uses 2 3 ∧
    GenerateKeyPair 5 7 = some (pk, sk) ∧
    GenerateNtildeH1H2 2048 ⟨11, 5, 23, 11, 2, 3⟩ = some keys ∧
    IsCoprime pk.N keys.ntildeH1H2.Ntilde := by
  have first : (Pool.start.run fourPrimes (filling ++ List.replicate 2 (.go ⟨0, .paillier⟩))).map
      (fun s => (s.calls ⟨0, .paillier⟩, s.calls ⟨0, .ntilde⟩, s.SafePrimeCh)) =
        some (.both 0 1, .idle, [2, 3]) := by decide +kernel
  obtain ⟨s, runs, at_s⟩ := map_eq_some_iff.mp first
  have second : ((Pool.start.run fourPrimes (filling ++ List.replicate 2 (.go ⟨0, .paillier⟩))).bind
      fun s => s.run fourPrimes (List.replicate 2 (.go ⟨0, .paillier⟩) ++ whole 0 .ntilde)).map
      (fun s => s.calls ⟨0, .ntilde⟩) = some (.made 2 3) := by decide +kernel
  rw [runs, bind_some] at second
  obtain ⟨s', later, at_s'⟩ := map_eq_some_iff.mp second
  obtain ⟨both, idle, channel⟩ : s.calls ⟨0, .paillier⟩ = .both 0 1 ∧
      s.calls ⟨0, .ntilde⟩ = .idle ∧ s.SafePrimeCh = [2, 3] := by simpa using at_s
  have others : ∀ c, .go c ∈ List.replicate 2 (.go ⟨0, .paillier⟩) ++ whole 0 .ntilde →
      c ≠ ⟨0, .ntilde⟩ → ¬ (s.calls c).Receives := by
    intro c mem ne
    simp only [whole, mem_append, mem_replicate, Action.go.injEq] at mem
    rcases mem with ⟨-, rfl⟩ | ⟨-, rfl⟩
    · rw [both]
      exact id
    · exact absurd rfl ne
  refine ⟨s, s', _, _, _, runs, later, .inl both, .inr (.inr at_s'), rfl, rfl, ?_⟩
  exact (primes_held_once fourPrimes runs).2.2 0 0 1 _ s' both idle (by rw [channel]; decide) others
    later 2 3 (.inr (.inr at_s')) 5 7 rfl rfl ⟨11, 5, 23, 11, 2, 3⟩ rfl rfl _ _ 2048 _ rfl rfl

/-- Two sessions at the same time: the `Ntilde` of session 0 is made of its Paillier primes.  Two
sessions one after the other: both have the same Paillier primes. -/
theorem primes_used_again :
    (Pool.start.run fourPrimes (filling ++ whole 0 .paillier ++ whole 1 .paillier ++
      whole 0 .ntilde)).map (fun s => (s.calls ⟨0, .paillier⟩, s.calls ⟨0, .ntilde⟩)) =
        some (.made 0 1, .made 0 1) ∧
    (Pool.start.run fourPrimes (filling ++ whole 0 .paillier ++ whole 0 .ntilde ++
      whole 1 .paillier)).map (fun s => (s.calls ⟨0, .paillier⟩, s.calls ⟨1, .paillier⟩)) =
        some (.made 0 1, .made 0 1) := by
  decide +kernel

end ThresholdDsa.Ec2.SafePrimes
