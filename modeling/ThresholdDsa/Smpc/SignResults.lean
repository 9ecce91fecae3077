/-
# The signatures of a command and their order

`signEC` starts one goroutine for each hash.  Each puts a SignData request into the
queue and waits for its end or for a timeout; the worker that takes the request
appends the signature to the list `rsv` of the command's worker.  When all
goroutines have returned, `signEC` joins the list with colons and succeeds if it has
as many entries as there are hashes.

Nothing orders the appends.  `results_follow_completion`: the entries of a result
are signatures of all hashes, in the order in which the requests ended, and so in
the order of the hashes if each request ends after those of the earlier hashes.
`results_out_of_order`: the second request ends first, and the result has the
signatures the wrong way round.
-/
import ThresholdDsa.Smpc.Dispatch
import ThresholdDsa.Smpc.SignEC3

namespace ThresholdDsa.Smpc.Finalize

open Outcome GoText Secp256k1 ChildKey List

/-- The arguments of `signEC`; `GroupID` is the group of the command's worker. -/
structure SignCall where
  msgprex : Text
  txhash : List Text
  save : Text
  sku1 : ℤ
  pk : ℤ × ℤ
  (inputcode keytype : Text)
  pickdata : List PickHashData
  GroupID : Text

/-- The list of signatures.  `ran` and `returned` are the hashes whose request has ended and whose
goroutine has returned. -/
structure Board where
  rsv : List Text
  (ran returned : List ℕ)

/-- A request ends, with what the rounds of its attempts give and whether the worker of the command is
found; or a goroutine returns, after its request or at a timeout. -/
inductive Event where
  | ended (i : ℕ) (attempts : List Rounds) (found : Bool)
  | returned (i : ℕ)

section SignEC

variable (E : Env) (P : Prims) (db : KeyDb) (c : SignCall)

def request (vv : Text) (pick : PreSignData) : SignData where
  InputCodeT := c.inputcode
  Sku1 := c.sku1
  Pk := c.pk
  MsgPrex := c.msgprex
  Save := c.save
  Txhash := vv
  GroupID := c.GroupID
  Keytype := c.keytype
  Pre := pick

/-- The list after a request of the hash has ended. -/
def appended (vv : Text) (pick : PreSignData) (attempts : List Rounds) (found : Bool)
    (rsv : List Text) : List Text :=
  match doSignData P db (request c vv pick) attempts with
  | .ok ret => if found then rsv ++ [ret] else rsv
  | .error _ => rsv

/-- A hash without pre-sign data makes no request, and a request ends once. -/
def step (tmp : List Text) (b : Board) : Event → Board
  | .ended i attempts found =>
    match tmp[i]?, (tmp[i]?).bind (Dispatch.pickFor E c.pickdata) with
    | some vv, some pick =>
      if i ∈ b.ran then b
      else { b with rsv := appended P db c vv pick attempts found b.rsv, ran := i :: b.ran }
    | _, _ => b
  | .returned i => { b with returned := i :: b.returned }

def run (tmp : List Text) (b : Board) (events : List Event) : Board := events.foldl (step E P db c tmp) b

def start : Board := ⟨[], [], []⟩

def NULL : Text := "NULL".toList

/-- What `signEC` reports from the list. -/
def report (n : ℕ) (rsv : List Text) : Outcome Text := do
  let ret := rsv.flatMap (fun mdss => mdss ++ [':']) ++ NULL
  require ((ret.splitOn ':').length = n + 1) "sign fail"
  pure ret

/-- The result after the events; as long as a goroutine has not returned there is none. -/
def signEC (found : Bool) (events : List Event) : Outcome Text := do
  let tmp ← c.txhash.mapM Dispatch.stripHash
  require found "no find worker"
  let b := run E P db c tmp start events
  require ((List.range tmp.length).all fun i => b.returned.contains i) "wait"
  report tmp.length b.rsv

end SignEC

/-! ## The list of a run -/

section

variable {E : Env} {P : Prims} {db : KeyDb} {c : SignCall} {tmp : List Text} {b : Board}

/-- A signature of the hash for the public key of the input code. -/
def SignatureFor (P : Prims) (db : KeyDb) (c : SignCall) (vv sig : Text) : Prop :=
  ∃ pk, signChild P.S P.hmac db ⟨c.inputcode, c.sku1, c.pk⟩ = .ok (some pk) ∧
    IsSignature P.S pk vv sig

variable {events : List Event} {vv : Text} {e : Event} {pick : PreSignData} {i : ℕ}

theorem signatureFor_of_done {sig : Text} {attempts : List Rounds}
    (done : doSignData P db (request c vv pick) attempts = .ok sig) :
    SignatureFor P db c vv sig := by
  obtain ⟨childPK, rounds, -, child, signed⟩ := doSignData_eq_ok done
  obtain ⟨pk, rfl, made⟩ := signEC3_eq_ok signed
  exact ⟨pk, child, made.isSignature⟩

theorem SignatureFor.colon_free {sig : Text} (signature : SignatureFor P db c vv sig) :
    ':' ∉ sig := by
  obtain ⟨pk, -, r, s, v, -, rfl⟩ := signature
  exact colon_notMem_getSignString r s v

variable (P db c) in
theorem appended_cases (vv : Text) (pick : PreSignData) (attempts : List Rounds) (found : Bool)
    (rsv : List Text) :
    appended P db c vv pick attempts found rsv = rsv ∨
      ∃ sig, doSignData P db (request c vv pick) attempts = .ok sig ∧
        appended P db c vv pick attempts found rsv = rsv ++ [sig] := by
  unfold appended
  split
  · rename_i ret done
    split
    · exact .inr ⟨ret, done, rfl⟩
    · exact .inl rfl
  · exact .inl rfl

variable (E P db c tmp b) in
/-- An event leaves list and ended requests as they are, or a request ends for the first time. -/
theorem step_cases (e : Event) :
    ((step E P db c tmp b e).rsv = b.rsv ∧ (step E P db c tmp b e).ran = b.ran) ∨
      ∃ i attempts found vv pick, e = .ended i attempts found ∧ tmp[i]? = some vv ∧
        Dispatch.pickFor E c.pickdata vv = some pick ∧ i ∉ b.ran ∧
        (step E P db c tmp b e).ran = i :: b.ran ∧
        (step E P db c tmp b e).rsv = appended P db c vv pick attempts found b.rsv := by
  cases e with
  | returned i => exact .inl ⟨rfl, rfl⟩
  | ended i attempts found =>
    simp only [step]
    split
    · rename_i vv pick at_i picked
      rw [at_i, Option.bind_some] at picked
      split
      · exact .inl ⟨rfl, rfl⟩
      · rename_i fresh
        exact .inr ⟨i, attempts, found, vv, pick, rfl, at_i, picked, fresh, rfl, rfl⟩
    · exact .inl ⟨rfl, rfl⟩

/-- What the request of a hash appends is in the relation with the hash. -/
def Makes (E : Env) (P : Prims) (db : KeyDb) (c : SignCall) (r : Text → Text → Prop) : Event → Prop
  | .ended _ attempts _ => ∀ vv pick sig, Dispatch.pickFor E c.pickdata vv = some pick →
      doSignData P db (request c vv pick) attempts = .ok sig → r vv sig
  | .returned _ => True

/-- The entry is in the relation with the hash of that number. -/
def Signs (r : Text → Text → Prop) (tmp : List Text) (sig : Text) (i : ℕ) : Prop :=
  ∃ vv, tmp[i]? = some vv ∧ r vv sig

/-- Requests of the call end once each, and the entries follow the order in which they end. -/
structure Placed (r : Text → Text → Prop) (tmp : List Text) (b : Board) : Prop where
  ran_nodup : b.ran.Nodup
  ran_lt : ∀ i ∈ b.ran, i < tmp.length
  signed : ∃ order, List.Sublist order b.ran.reverse ∧ List.Forall₂ (Signs r tmp) b.rsv order

variable {r : Text → Text → Prop}

theorem Placed.start : Placed r tmp start where
  ran_nodup := nodup_nil
  ran_lt := nofun
  signed := ⟨[], List.Sublist.refl _, .nil⟩

theorem Placed.step (placed : Placed r tmp b) (makes : Makes E P db c r e) :
    Placed r tmp (step E P db c tmp b e) := by
  obtain ⟨order, sub, signed⟩ := placed.signed
  rcases step_cases E P db c tmp b e with
    ⟨rsv, ran⟩ | ⟨i, attempts, found, vv, pick, rfl, at_i, picked, fresh, ran, rsv⟩
  · exact ⟨by rw [ran]; exact placed.ran_nodup, by rw [ran]; exact placed.ran_lt,
      order, by rw [ran]; exact sub, by rw [rsv]; exact signed⟩
  constructor
  · rw [ran]
    exact nodup_cons.mpr ⟨fresh, placed.ran_nodup⟩
  · rw [ran]
    intro k mem
    rcases mem_cons.mp mem with rfl | old
    · exact (List.getElem?_eq_some_iff.mp at_i).1
    · exact placed.ran_lt k old
  · rw [ran, rsv, reverse_cons]
    rcases appended_cases P db c vv pick attempts found b.rsv with same | ⟨sig, done, eq⟩
    · rw [same]
      exact ⟨order, sub.trans (sublist_append_left _ _), signed⟩
    · rw [eq]
      exact ⟨order ++ [i], sub.append (List.Sublist.refl _),
        rel_append signed (.cons ⟨vv, at_i, makes vv pick sig picked done⟩ .nil)⟩

theorem Placed.run (placed : Placed r tmp b) (makes : ∀ e ∈ events, Makes E P db c r e) :
    Placed r tmp (run E P db c tmp b events) := by
  induction events generalizing b with
  | nil => exact placed
  | cons e rest ih =>
    exact ih (placed.step (makes e mem_cons_self)) fun e' mem =>
      makes e' (mem_cons_of_mem _ mem)

variable (E P db c tmp events) in
theorem placed_run : Placed (SignatureFor P db c) tmp (run E P db c tmp start events) := by
  refine Placed.start.run fun e _ => ?_
  cases e with
  | returned i => trivial
  | ended => exact fun vv pick sig _ done => signatureFor_of_done done

/-- A full list: every request has ended, and the entries are in that order. -/
theorem Placed.full (placed : Placed r tmp b) (full : b.rsv.length = tmp.length) :
    List.Perm b.ran (List.range tmp.length) ∧ List.Forall₂ (Signs r tmp) b.rsv b.ran.reverse := by
  obtain ⟨order, sub, signed⟩ := placed.signed
  have order_length : order.length = tmp.length := signed.length_eq.symm.trans full
  have within : List.Subperm b.ran (List.range tmp.length) :=
    subperm_of_subset placed.ran_nodup fun i mem => mem_range.mpr (placed.ran_lt i mem)
  have ran_le : b.ran.length ≤ tmp.length := by simpa using within.length_le
  have le_ran : order.length ≤ b.ran.length := by simpa using sub.length_le
  have order_eq : order = b.ran.reverse := by
    apply sub.eq_of_length
    rw [length_reverse]
    omega
  refine ⟨within.perm_of_length_le ?_, order_eq ▸ signed⟩
  rw [length_range, ← order_length]
  exact le_ran

/-- A full list has an entry for every hash. -/
theorem Placed.exists_entry (placed : Placed r tmp b) (full : b.rsv.length = tmp.length)
    (mem : vv ∈ tmp) : ∃ sig ∈ b.rsv, r vv sig := by
  obtain ⟨all, signed⟩ := placed.full full
  obtain ⟨i, i_lt, at_i⟩ := mem_iff_getElem.mp mem
  have ran : i ∈ b.ran.reverse := by
    rw [mem_reverse, all.mem_iff, mem_range]
    exact i_lt
  obtain ⟨sig, sig_mem, vv', at_i', made⟩ := exists_of_mem_forall₂ signed ran
  rw [getElem?_eq_getElem i_lt, at_i] at at_i'
  obtain rfl := Option.some.inj at_i'
  exact ⟨sig, sig_mem, made⟩

/-! ## Requests that all succeed -/

theorem mem_ran_step (at_i : tmp[i]? = some vv)
    (picked : Dispatch.pickFor E c.pickdata vv = some pick)
    (ends : i ∈ b.ran ∨ ∃ attempts found, e = .ended i attempts found) :
    i ∈ (step E P db c tmp b e).ran := by
  rcases ends with old | ⟨attempts, found, rfl⟩
  · rcases step_cases E P db c tmp b e with ⟨-, ran⟩ | ⟨j, -, -, -, -, -, -, -, -, ran, -⟩
    · rwa [ran]
    · rw [ran]
      exact mem_cons_of_mem _ old
  · simp only [step, at_i, Option.bind_some, picked]
    split
    · assumption
    · exact mem_cons_self

theorem mem_ran_run (at_i : tmp[i]? = some vv)
    (picked : Dispatch.pickFor E c.pickdata vv = some pick)
    (ends : i ∈ b.ran ∨ ∃ attempts found, .ended i attempts found ∈ events) :
    i ∈ (run E P db c tmp b events).ran := by
  induction events generalizing b with
  | nil => exact ends.resolve_right (by simp)
  | cons e rest ih =>
    apply ih
    rcases ends with old | ⟨attempts, found, mem⟩
    · exact .inl (mem_ran_step at_i picked (.inl old))
    · rcases mem_cons.mp mem with rfl | later
      · exact .inl (mem_ran_step at_i picked (.inr ⟨attempts, found, rfl⟩))
      · exact .inr ⟨attempts, found, later⟩

theorem mem_returned_run (returns : i ∈ b.returned ∨ .returned i ∈ events) :
    i ∈ (run E P db c tmp b events).returned := by
  induction events generalizing b with
  | nil => exact returns.resolve_right not_mem_nil
  | cons e rest ih =>
    apply ih
    cases e with
    | returned j =>
      rcases returns with old | mem
      · exact .inl (mem_cons_of_mem _ old)
      · rcases mem_cons.mp mem with same | later
        · cases same
          exact .inl mem_cons_self
        · exact .inr later
    | ended =>
      refine returns.imp (fun old => ?_) fun mem => by simpa using mem
      simp only [step]
      split
      · split <;> exact old
      · exact old

/-- A request that ends has appended its signature. -/
def Appends (E : Env) (P : Prims) (db : KeyDb) (c : SignCall) (tmp : List Text) : Event → Prop
  | .ended _ attempts found => found = true ∧ ∀ vv ∈ tmp, ∀ pick,
      Dispatch.pickFor E c.pickdata vv = some pick →
      ∃ sig, doSignData P db (request c vv pick) attempts = .ok sig
  | .returned _ => True

theorem lengths_step (lengths : b.rsv.length = b.ran.length) (appends : Appends E P db c tmp e) :
    (step E P db c tmp b e).rsv.length = (step E P db c tmp b e).ran.length := by
  rcases step_cases E P db c tmp b e with
    ⟨rsv, ran⟩ | ⟨i, attempts, found, vv, pick, rfl, at_i, picked, -, ran, rsv⟩
  · rw [rsv, ran, lengths]
  · obtain ⟨rfl, all⟩ := appends
    obtain ⟨sig, done⟩ := all vv (mem_of_getElem? at_i) pick picked
    rw [rsv, ran, appended, done]
    simp [lengths]

theorem lengths_run (lengths : b.rsv.length = b.ran.length)
    (appends : ∀ e ∈ events, Appends E P db c tmp e) :
    (run E P db c tmp b events).rsv.length = (run E P db c tmp b events).ran.length := by
  induction events generalizing b with
  | nil => exact lengths
  | cons e rest ih =>
    apply ih
    · exact lengths_step lengths (appends e mem_cons_self)
    · exact fun e' mem => appends e' (mem_cons_of_mem _ mem)

/-- If every hash has pre-sign data, every request ends and appends, the list is full. -/
theorem full_run (picked : ∀ vv ∈ tmp, ∃ pick, Dispatch.pickFor E c.pickdata vv = some pick)
    (ends : ∀ i < tmp.length, ∃ attempts found, .ended i attempts found ∈ events)
    (appends : ∀ e ∈ events, Appends E P db c tmp e) :
    (run E P db c tmp start events).rsv.length = tmp.length := by
  have placed := placed_run E P db c tmp events
  have all : List.Perm (run E P db c tmp start events).ran (List.range tmp.length) := by
    rw [perm_ext_iff_of_nodup placed.ran_nodup nodup_range]
    intro i
    rw [mem_range]
    refine ⟨placed.ran_lt i, fun i_lt => ?_⟩
    obtain ⟨pick, eq⟩ := picked tmp[i] (getElem_mem i_lt)
    exact mem_ran_run (getElem?_eq_getElem i_lt) eq (.inr (ends i i_lt))
  rw [lengths_run rfl appends, all.length_eq, length_range]

/-! ## Requests that end in turn -/

/-- The requests of all earlier hashes have ended. -/
def InTurn (b : Board) : Event → Prop
  | .ended i _ _ => ∀ j < i, j ∈ b.ran
  | .returned _ => True

def AllInTurn (E : Env) (P : Prims) (db : KeyDb) (c : SignCall) (tmp : List Text) :
    Board → List Event → Prop
  | _, [] => True
  | b, e :: rest => InTurn b e ∧ AllInTurn E P db c tmp (step E P db c tmp b e) rest

/-- The requests have ended in the order of the hashes, none left out. -/
structure Ordered (b : Board) : Prop where
  decreasing : b.ran.Pairwise (· > ·)
  closed : ∀ i ∈ b.ran, ∀ j < i, j ∈ b.ran

theorem Ordered.step (ordered : Ordered b) (turn : InTurn b e) :
    Ordered (step E P db c tmp b e) := by
  rcases step_cases E P db c tmp b e with
    ⟨-, ran⟩ | ⟨i, attempts, found, -, -, rfl, -, -, fresh, ran, -⟩
  · exact ⟨by rw [ran]; exact ordered.decreasing, by rw [ran]; exact ordered.closed⟩
  constructor
  · rw [ran]
    refine pairwise_cons.mpr ⟨fun k mem => ?_, ordered.decreasing⟩
    -- a later request that had ended would have come after this one
    by_contra not_lt
    rcases Nat.lt_or_eq_of_le (Nat.le_of_not_lt not_lt) with lt | rfl
    · exact fresh (ordered.closed k mem i lt)
    · exact fresh mem
  · rw [ran]
    intro k mem j j_lt
    rcases mem_cons.mp mem with rfl | old
    · exact mem_cons_of_mem _ (turn j j_lt)
    · exact mem_cons_of_mem _ (ordered.closed k old j j_lt)

theorem Ordered.run (ordered : Ordered b) (turns : AllInTurn E P db c tmp b events) :
    Ordered (run E P db c tmp b events) := by
  induction events generalizing b with
  | nil => exact ordered
  | cons e rest ih => exact ih (ordered.step turns.1) turns.2

theorem Ordered.start : Ordered start := ⟨List.Pairwise.nil, nofun⟩

theorem Ordered.ran_eq {n : ℕ} (ordered : Ordered b) (all : List.Perm b.ran (List.range n)) :
    b.ran.reverse = List.range n := by
  apply (b.ran.reverse_perm.trans all).eq_of_pairwise
  · intro i j _ _ (lt : i < j) (gt : j < i)
    omega
  · exact pairwise_reverse.mpr ordered.decreasing
  · exact pairwise_lt_range

/-! ## The result -/

theorem joined_splitOn {rsv : List Text} (colon_free : ∀ sig ∈ rsv, ':' ∉ sig) :
    (rsv.flatMap (fun mdss => mdss ++ [':']) ++ NULL).splitOn ':' = rsv ++ [NULL] := by
  have joined : rsv.flatMap (fun mdss => mdss ++ [':']) ++ NULL = [':'].intercalate (rsv ++ [NULL]) := by
    induction rsv with
    | nil => rfl
    | cons sig rest ih =>
      have tail := ih fun s mem => colon_free s (mem_cons_of_mem _ mem)
      obtain ⟨next, more, eq⟩ := exists_cons_of_ne_nil (l := rest ++ [NULL]) (by simp)
      rw [flatMap_cons, append_assoc, tail, cons_append, eq]
      simp [List.intercalate]
  rw [joined]
  refine splitOn_intercalate ':' (fun s mem => ?_) (by simp)
  rcases mem_append.mp mem with entry | null
  · exact colon_free s entry
  · rw [mem_singleton.mp null]
    decide

theorem colon_free_of_signs {rsv : List Text} {order : List ℕ}
    (signed : List.Forall₂ (Signs (SignatureFor P db c) tmp) rsv order) : ∀ sig ∈ rsv, ':' ∉ sig := by
  induction signed with
  | nil => nofun
  | cons first _ ih =>
    obtain ⟨vv, -, signature⟩ := first
    exact forall_mem_cons.mpr ⟨signature.colon_free, ih⟩

/-- What a reported result says about the list. -/
theorem signEC_eq_ok {found : Bool} {ret : Text} (success : signEC E P db c found events = .ok ret) :
    ∃ tmp, c.txhash.mapM Dispatch.stripHash = .ok tmp ∧
      (run E P db c tmp start events).rsv.length = tmp.length ∧
      ret.splitOn ':' = (run E P db c tmp start events).rsv ++ [NULL] := by
  simp only [signEC, report, eq_ok, decide_eq_true_eq] at success
  obtain ⟨tmp, stripped, -, -, -, -, -, count, rfl⟩ := success
  have placed := placed_run E P db c tmp events
  obtain ⟨order, -, signed⟩ := placed.signed
  have entries := joined_splitOn (colon_free_of_signs signed)
  rw [entries, length_append, length_singleton] at count
  exact ⟨tmp, stripped, Nat.succ_injective count, entries⟩

theorem signEC_returns (stripped : c.txhash.mapM Dispatch.stripHash = .ok tmp)
    (returns : ∀ i < tmp.length, .returned i ∈ events)
    (full : (run E P db c tmp start events).rsv.length = tmp.length) :
    ∃ ret, signEC E P db c true events = .ok ret := by
  have placed := placed_run E P db c tmp events
  obtain ⟨order, -, signed⟩ := placed.signed
  have all : (List.range tmp.length).all fun i =>
      (run E P db c tmp start events).returned.contains i := by
    rw [all_eq_true]
    intro i mem
    rw [contains_iff_mem]
    exact mem_returned_run (.inr (returns i (mem_range.mp mem)))
  have count : ((run E P db c tmp start events).rsv ++ [NULL]).length = tmp.length + 1 := by
    rw [length_append, full, length_singleton]
  simp only [signEC, stripped, ok_bind, require, all, if_true, report,
    joined_splitOn (colon_free_of_signs signed), count, decide_true]
  exact ⟨_, rfl⟩

end

/-- The entries of a result sign the hashes in the order in which the requests have ended.  If the
requests end in turn, the entry at the place of a hash is a signature of that hash. -/
theorem results_follow_completion (E : Env) (P : Prims) (db : KeyDb) (c : SignCall) (found : Bool)
    (events : List Event) (ret : Text) (success : signEC E P db c found events = .ok ret) :
    ∃ tmp, c.txhash.mapM Dispatch.stripHash = .ok tmp ∧
      List.Forall₂ (Signs (SignatureFor P db c) tmp) (ret.splitOn ':').dropLast
        (run E P db c tmp start events).ran.reverse ∧
      (AllInTurn E P db c tmp start events → ∀ (i : ℕ) (vv : Text), tmp[i]? = some vv →
        ∃ sig, (ret.splitOn ':')[i]? = some sig ∧ SignatureFor P db c vv sig) := by
  obtain ⟨tmp, stripped, full, entries⟩ := signEC_eq_ok success
  have placed := placed_run E P db c tmp events
  obtain ⟨all, signed⟩ := placed.full full
  refine ⟨tmp, stripped, ?_, fun turns i vv at_i => ?_⟩
  · rw [entries, dropLast_concat]
    exact signed
  rw [(Ordered.start.run turns).ran_eq all] at signed
  have i_lt : i < tmp.length := (List.getElem?_eq_some_iff.mp at_i).1
  have i_lt_rsv := full ▸ i_lt
  obtain ⟨vv', at_i', signature⟩ := signed.get i_lt_rsv (by simpa using i_lt)
  simp only [get_eq_getElem, getElem_range] at at_i' signature
  obtain rfl : vv = vv' := Option.some_injective _ (at_i.symm.trans at_i')
  refine ⟨_, ?_, signature⟩
  rw [entries, getElem?_append_left i_lt_rsv]
  exact getElem?_eq_getElem i_lt_rsv

/-! ## Two hashes -/

namespace TwoHashes

/-- The group of order 13, and a key whose data and share are stored. -/
def prims : Prims := ⟨zmodCurve 13, fun _ _ => [], fun _ _ _ _ _ _ => 0⟩

def db : KeyDb where
  pubKey key := if key = Marshal (1, 1) then some (.pubKey ⟨[], Marshal (1, 1), [], ['g']⟩) else none
  skU1 key := if key = Marshal (1, 1) then some [1] else none
  bip32c _ := none

def first : Text := ['0', '1']
def second : Text := ['0', '2']

def pick (r : ℤ) : PreSignData := ⟨['k'], 0, r, 0, 0, ['g'], false, 0⟩

def call : SignCall where
  msgprex := ['p']
  txhash := [first, second]
  save := []
  sku1 := 1
  pk := (1, 1)
  inputcode := []
  keytype := EC256K1
  pickdata := [⟨first, pick 7⟩, ⟨second, pick 5⟩]
  GroupID := ['g']

/-- The rounds give 3 for the first hash and 4 for the second. -/
def rounds : Rounds := fun _ _ _ sd => some (if sd.Txhash = first then 3 else 4)

def endsAt (i : ℕ) : List Event := [.ended i [rounds] true, .returned i]

end TwoHashes

open TwoHashes in
theorem two_requests_in_turn :
    ∃ sig, ("070300:050400:NULL".toList.splitOn ':')[1]? = some sig ∧
      SignatureFor prims TwoHashes.db call second sig := by
  obtain ⟨tmp, stripped, -, in_turn⟩ := results_follow_completion modeOneEnv prims TwoHashes.db call
    true (endsAt 0 ++ endsAt 1) "070300:050400:NULL".toList (by decide +kernel)
  obtain rfl : [first, second] = tmp := Except.ok.inj stripped
  have turns : AllInTurn modeOneEnv prims TwoHashes.db call [first, second] start
      (endsAt 0 ++ endsAt 1) := by
    refine ⟨nofun, trivial, fun j lt => ?_, trivial, trivial⟩
    obtain rfl : j = 0 := Nat.lt_one_iff.mp lt
    exact mem_singleton.mpr rfl
  exact in_turn turns 1 second rfl

/-- The last byte is the recovery id. -/
theorem getSignString_dropLast (r s v w : ℤ) :
    (GetSignString r s v).dropLast.dropLast = (GetSignString r s w).dropLast.dropLast := by
  have bytes : ∃ first, ∀ u, signBytes r s u = first ++ [UInt8.ofNat (u % 256).toNat] := by
    unfold signBytes
    simp only
    split
    · exact ⟨_, fun u => rfl⟩
    · split
      · exact ⟨_, fun u => rfl⟩
      · split
        · exact ⟨_, fun u => rfl⟩
        · exact ⟨_, fun u => rfl⟩
  obtain ⟨first, eq⟩ := bytes
  simp [GetSignString, ToolDecimalByteSlice2HexString, eq]

open TwoHashes in
/-- The request of the second hash ends first: its signature stands in the first place. -/
theorem results_out_of_order :
    signEC modeOneEnv prims TwoHashes.db call true (endsAt 1 ++ endsAt 0) =
        .ok "050400:070300:NULL".toList ∧
      call.txhash = [first, second] ∧ first ≠ second ∧
      ¬ ∃ sig, ("050400:070300:NULL".toList.splitOn ':')[0]? = some sig ∧
        SignatureFor prims TwoHashes.db call first sig := by
  refine ⟨by decide +kernel, rfl, by decide, ?_⟩
  rintro ⟨sig, at_zero, pk, child, r, s, v, verified, text⟩
  obtain rfl : "050400".toList = sig := Option.some_injective _ at_zero
  obtain rfl : (1, 1) = pk := Option.some_injective _ (Except.ok.inj child)
  obtain ⟨r_range, s_range⟩ := verify2_range verified
  have none_fits : ∀ r ∈ Finset.Icc (1 : ℤ) 12, ∀ s ∈ Finset.Icc (1 : ℤ) 12,
      Verify2 prims.S r s first (1, 1) = .ok true →
        (GetSignString r s 0).dropLast.dropLast ≠ "050400".toList.dropLast.dropLast := by
    decide +kernel
  refine none_fits r (Finset.mem_Icc.mpr r_range) s (Finset.mem_Icc.mpr s_range) verified ?_
  rw [text]
  exact getSignString_dropLast r s 0 v

end ThresholdDsa.Smpc.Finalize
