/-
# The lock of the emitter

`p2pSendMsg` and `SendMsgToPeer` read the table of peers under the lock of the emitter in
a loop of attempts, `Broadcast` once.  Calls run interleaved, and wait while another one
holds the lock.  `lock_released_iff`: no call ever returns with the lock, exactly if in
each `SendMsgToPeer` the first attempt that finds the peer also sends.
-/
import ThresholdDsa.Lib.GoText

namespace ThresholdDsa.P2p.EmitterLock

open GoText Function

/-- What an attempt meets: the peer in the table, a send without an error, a broadcast node that
takes the message. -/
structure Attempt where
  (peer send relay : Bool)

/-- How an attempt leaves the lock: `kept` returns without the unlock. -/
inductive Exit where
  | Unlock | kept | panic
  deriving DecidableEq

/-- A loop of attempts, up to the first that returns. -/
def attempts (returns : Attempt → Bool) (exit : Attempt → Exit) : ℕ → (ℕ → Attempt) → List Exit
  | 0, _ => []
  | left + 1, meets =>
    exit (meets 0) ::
      if returns (meets 0) then [] else attempts returns exit left fun n => meets (n + 1)

inductive Call where
  | p2pSendMsg (msg : Text) (meets : ℕ → Attempt)
  | SendMsgToPeer (parses : Bool) (meets : ℕ → Attempt)
  | Broadcast (msg : Text) (emitter : Bool)

/-- The attempts of a call.  `SendMsgToPeer` returns a failed send at once, and reads the id of an
enode that did not parse under the lock. -/
def Call.exits : Call → List Exit
  | .p2pSendMsg msg meets =>
    if msg = [] then []
    else attempts (fun a => a.peer && a.send || a.relay) (fun _ => .Unlock) 20 meets
  | .SendMsgToPeer parses meets =>
    if parses then
      attempts (·.peer) (fun a => if a.peer && !a.send then .kept else .Unlock) 3001 meets
    else [.panic]
  | .Broadcast msg emitter => if msg = [] ∨ emitter = false then [] else [.Unlock]

/-- The call that holds the lock, and the attempts left to each call: none once it returned. -/
structure State (ι : Type) where
  holder : Option ι
  exits : ι → List Exit

variable {ι : Type} [DecidableEq ι]

/-- A call that has attempts left takes the free lock, or ends the attempt it is in. -/
def step (st : State ι) (i : ι) : State ι :=
  match st.exits i with
  | [] => st
  | exit :: rest =>
    if st.holder = none then { st with holder := some i }
    else if st.holder = some i then
      match exit with
      | .Unlock => ⟨none, update st.exits i rest⟩
      | .kept => { st with exits := update st.exits i [] }
      | .panic => st
    else st

def run (calls : ι → Call) (turns : List ι) : State ι :=
  turns.foldl step ⟨none, fun i => (calls i).exits⟩

theorem mem_attempts {returns : Attempt → Bool} {exit : Attempt → Exit} {left : ℕ}
    {meets : ℕ → Attempt} {e : Exit} : e ∈ attempts returns exit left meets ↔
      ∃ n < left, (∀ m < n, returns (meets m) = false) ∧ e = exit (meets n) := by
  induction left generalizing meets with
  | zero => simp [attempts]
  | succ left ih =>
    simp only [attempts, Nat.exists_lt_succ_left, Nat.forall_lt_succ_left']
    cases returns (meets 0) <;> simp [ih]

/-- The first of the attempts that finds the peer also sends. -/
def FirstSends (meets : ℕ → Attempt) : Prop :=
  ∀ n < 3001, (∀ m < n, (meets m).peer = false) → (meets n).peer = true → (meets n).send = true

theorem kept_mem_exits {c : Call} : .kept ∈ c.exits ↔
    ∃ meets, c = .SendMsgToPeer true meets ∧ ¬ FirstSends meets := by
  rcases c with ⟨msg, meets⟩ | ⟨parses, meets⟩ | ⟨msg, emitter⟩
  · simp only [Call.exits]
    split <;> simp [mem_attempts]
  · cases parses <;> simp [Call.exits, mem_attempts, FirstSends]
  · simp only [Call.exits]
    split <;> simp

variable {s : State ι} {i : ι}

/-- A call that returns with the lock does so when it runs alone. -/
theorem run_alone (free : s.holder = none) (kept : .kept ∈ s.exits i) (calm : .panic ∉ s.exits i) :
    ∃ turns : List ι, (turns.foldl step s).holder = some i ∧ (turns.foldl step s).exits i = [] := by
  generalize exits : s.exits i = l at kept calm
  induction l generalizing s with
  | nil => cases kept
  | cons exit rest ih =>
    cases exit with
    | Unlock =>
      obtain ⟨turns, ends⟩ := ih (s := step (step s i) i) (by simp [step, exits, free])
        (by simp [step, exits, free]) (by simpa using kept) (by simpa using calm)
      exact ⟨i :: i :: turns, ends⟩
    | kept => exact ⟨[i, i], by simp [step, exits, free]⟩
    | panic => simp at calm

/-- No attempt that is left keeps the lock, and its holder has not returned. -/
def Released (s : State ι) : Prop :=
  ∀ i, .kept ∉ s.exits i ∧ (s.holder = some i → s.exits i ≠ [])

theorem Released.step (inv : Released s) (i : ι) : Released (step s i) := by
  intro j
  have turn := inv i
  have other := inv j
  unfold EmitterLock.step
  split
  · exact other
  rename_i exit rest exits
  rw [exits] at turn
  split
  · exact ⟨other.1, fun same => Option.some.inj same ▸ exits ▸ List.cons_ne_nil _ _⟩
  split
  swap
  · exact other
  rename_i holds
  by_cases same : j = i
  · subst same
    cases exit <;> simp_all
  · cases exit <;> simp_all [Ne.symm same]

/-- In every interleaving of calls. -/
theorem lock_released_iff (calls : ι → Call) :
    (∀ turns i, (run calls turns).holder = some i → (run calls turns).exits i ≠ []) ↔
      ∀ i meets, calls i = .SendMsgToPeer true meets → FirstSends meets := by
  constructor
  · intro released i meets call
    by_contra fails
    have kept : .kept ∈ (calls i).exits := kept_mem_exits.mpr ⟨meets, call, fails⟩
    have calm : .panic ∉ (calls i).exits := by
      rw [call, Call.exits, if_pos rfl, mem_attempts]
      rintro ⟨n, -, -, exit⟩
      split at exit <;> cases exit
    obtain ⟨turns, holds, returned⟩ :=
      run_alone (s := ⟨none, fun i => (calls i).exits⟩) rfl kept calm
    exact released turns i holds returned
  · intro sends turns i
    have initial : Released ⟨none, fun i => (calls i).exits⟩ := by
      refine fun i => ⟨fun kept => ?_, by simp⟩
      obtain ⟨meets, call, fails⟩ := kept_mem_exits.mp kept
      exact fails (sends i meets call)
    exact (List.foldlRecOn (motive := Released) turns step initial
      (fun s inv i _ => inv.step i) i).2

/-- The peer is known and the send fails: the call has returned with the lock, and the next one
waits. -/
theorem failed_send_keeps_lock :
    let st := run (fun _ : Fin 2 => .SendMsgToPeer true fun _ => ⟨true, false, false⟩) [0, 0]
    st.holder = some 0 ∧ st.exits 0 = [] ∧ st.exits 1 ≠ [] ∧ step st 1 = st :=
  ⟨rfl, rfl, List.cons_ne_nil _ _, rfl⟩

end ThresholdDsa.P2p.EmitterLock
