/-
# Moving the record of a command to the finished database

`AcceptReqAddr`, `AcceptSign` and `AcceptReShare` update the record of a command.
A record that is still `Pending` lives in a database of its own kind, any other in
the general one.  A call reads the general database, reads the pending one, merges
the non-empty arguments into the record, and then either writes it back or deletes
it and puts it into the general database.  Calls run concurrently and every
database operation may fail, so they are programs of `DbThreads` over the two
places of one key.

`records_kept`: if calls on a key do not overlap and the put that follows a
deletion succeeds, then a terminal status stays, and after every call the record
is in exactly one place.  `records_lost`: without either, a terminal status is
overwritten, the record ends up in both places, or in none.
-/
import ThresholdDsa.Lib.DbThreads
import ThresholdDsa.Smpc.Command

namespace ThresholdDsa.Smpc.AcceptStatus

set_option linter.unusedSectionVars false

open DbThreads GoText Function

/-! ## Records -/

structure NodeReply where
  (Enode Status TimeStamp Initiator : Text)
  deriving DecidableEq

/-- The record of a command.  `fixed` holds the fields that no call changes, `result` is `PubKey`,
`Rsv` or `NewSk`. -/
structure Record (F : Type) where
  fixed : F
  (Initiator Deal Accept Status result Tip Error : Text)
  AllReply : List NodeReply
  WorkID : ℤ
  Sigs : Text
  deriving DecidableEq

/-- The arguments of a call that may change the record. -/
structure Call where
  (initiator deal accept status result tip errinfo : Text)
  allreply : Option (List NodeReply)
  workid : ℤ
  sigs : Text

def Pending : Text := "Pending".toList
def Success : Text := "Success".toList
def Failure : Text := "Failure".toList
def Timeout : Text := "Timeout".toList

def Terminal (status : Text) : Prop := status = Success ∨ status = Failure ∨ status = Timeout

/-- An empty argument leaves the field as it is. -/
def choose (new old : Text) : Text := if new = [] then old else new

variable {F : Type}

def Record.merge (ac : Record F) (u : Call) : Record F where
  fixed := ac.fixed
  Initiator := choose u.initiator ac.Initiator
  Deal := choose u.deal ac.Deal
  Accept := choose u.accept ac.Accept
  Status := choose u.status ac.Status
  result := choose u.result ac.result
  Tip := choose u.tip ac.Tip
  Error := choose u.errinfo ac.Error
  AllReply := u.allreply.getD ac.AllReply
  WorkID := if 0 ≤ u.workid then u.workid else ac.WorkID
  Sigs := choose u.sigs ac.Sigs

/-! ## The calls -/

/-- The two databases, at the key of the command. -/
inductive Place where
  | pending
  | finished
  deriving DecidableEq

inductive AcceptError where
  | notFound (tip err : String)
  | codec (tip : String)
  | db
  deriving DecidableEq

abbrev Result := Except AcceptError Unit

abbrev AcceptProg (F : Type) := Prog Place (Record F) Result

/-- Whether the record can be encoded and compressed. -/
structure Codec (F : Type) where
  (Encode2 Compress : Record F → Bool)

/-- What differs between the three functions: when a finished record counts as processed, and the
texts of the errors. -/
structure Kind (F : Type) where
  processed : Record F → Bool
  (notFound encodeTip compressTip : String)

def written (stored : Bool) : AcceptProg F := .ret (if stored then .ok () else .error .db)

/-- Delete from the pending database, then put into the finished one. -/
def moveRecord (ac2 : Record F) : AcceptProg F :=
  .del .pending fun deleted =>
    if deleted then .put .finished ac2 written else .ret (.error .db)

def settle (K : Kind F) (C : Codec F) (ac2 : Record F) : AcceptProg F :=
  if ¬ C.Encode2 ac2 then .ret (.error (.codec K.encodeTip))
  else if ¬ C.Compress ac2 then .ret (.error (.codec K.compressTip))
  else if ac2.Status ≠ Pending then moveRecord ac2
  else .put .pending ac2 written

def lookup (K : Kind F) (C : Codec F) (u : Call) : AcceptProg F :=
  .find .pending (fun _ => true) (fun ac => settle K C (ac.merge u))
    (.ret (.error (.notFound "smpc back-end internal error:get accept data fail from db" K.notFound)))

def accept (K : Kind F) (C : Codec F) (u : Call) : AcceptProg F :=
  .find .finished K.processed (fun _ => .ret (.ok ())) (lookup K C u)

structure ReqAddrFixed where
  (Account Cointype GroupID Nonce LimitNum Mode TimeStamp : Text)
  deriving DecidableEq

def AcceptReqAddr : Codec ReqAddrFixed → Call → AcceptProg ReqAddrFixed :=
  accept
    { processed := fun ac => ac.Status ≠ Pending
      notFound := "get reqaddr accept data fail from db"
      encodeTip := "smpc back-end internal error:encode reqaddr accept data fail"
      compressTip := "smpc back-end internal error:compress reqaddr accept data fail" }

structure SignFixed where
  (Raw Account GroupID Nonce PubKey : Text)
  (MsgHash MsgContext : List Text)
  (Keytype LimitNum Mode TimeStamp : Text)
  deriving DecidableEq

/-- A record with a signature counts as processed too. -/
def AcceptSign : Codec SignFixed → Call → AcceptProg SignFixed :=
  accept
    { processed := fun ac => ac.Status ≠ Pending ∨ ac.result ≠ []
      notFound := "get sign accept data fail from db"
      encodeTip := "smpc back-end internal error:encode accept data fail"
      compressTip := "smpc back-end internal error:compress accept data fail" }

structure ReShareFixed where
  (Account GroupID TSGroupID PubKey LimitNum PubAccount Mode TimeStamp : Text)
  deriving DecidableEq

def AcceptReShare : Codec ReShareFixed → Call → AcceptProg ReShareFixed :=
  accept
    { processed := fun ac => ac.Status ≠ Pending
      notFound := "get reshare accept data fail from db"
      encodeTip := "smpc back-end internal error:encode accept data fail"
      compressTip := "smpc back-end internal error:compress accept data fail" }

/-! ## Runs -/

/-- One thread for each call on the key, in any number. -/
abbrev Calls (F : Type) := Config ℕ Place (Record F) Result

def Calls.initial (prog : Call → AcceptProg F) (db : Place → Option (Record F)) (u : ℕ → Call) :
    Calls F :=
  ⟨db, fun i => ⟨prog (u i), none, [], []⟩⟩

/-- A call that has begun and not returned. -/
def busy : AcceptProg F → Bool
  | .ret _ => false
  | .find .finished _ _ _ => false
  | _ => true

/-- The step is about to store a record in the finished database. -/
def storing : AcceptProg F → Bool
  | .put .finished _ _ => true
  | _ => false

/-- No other call is under way, and a put into the finished database succeeds. -/
structure Careful (c : Calls F) (i : ℕ) (fails : Bool) : Prop where
  alone : ∀ j ≠ i, busy (c.threads j).prog = false
  stores : storing (c.threads i).prog = true → fails = false

section

variable [DecidableEq F]

inductive CarefulRun (start : Calls F) : Calls F → Prop
  | start : CarefulRun start start
  | step {c : Calls F} (run : CarefulRun start c) {i : ℕ} {fails : Bool}
      (careful : Careful c i fails) : CarefulRun start (c.step i fails)

end

/-- The record as a reader finds it. -/
def stored (db : Place → Option (Record F)) : Option (Record F) := db .finished <|> db .pending

/-- The record is in exactly one place. -/
def InOnePlace (db : Place → Option (Record F)) : Prop :=
  (db .pending).isSome ≠ (db .finished).isSome

/-- A pending record in the pending database, or any other in the finished one. -/
inductive Placed (db : Place → Option (Record F)) : Prop
  | pending {ac : Record F} (at_pending : db .pending = some ac) (status : ac.Status = Pending)
      (absent : db .finished = none) : Placed db
  | finished {ac : Record F} (at_finished : db .finished = some ac) (status : ac.Status ≠ Pending)
      (absent : db .pending = none) : Placed db

variable {db : Place → Option (Record F)}

theorem Placed.inOnePlace (placed : Placed db) : InOnePlace db := by
  cases placed with
  | pending at_pending _ absent => simp [InOnePlace, at_pending, absent]
  | finished at_finished _ absent => simp [InOnePlace, at_finished, absent]

theorem InOnePlace.readable (one : InOnePlace db) :
    (stored db).isSome := by
  cases at_finished : db .finished with
  | some ac => simp [stored, at_finished]
  | none =>
    simp only [InOnePlace, at_finished] at one
    cases at_pending : db .pending with
    | some ac => simp [stored, at_finished, at_pending]
    | none => exact absurd (by rw [at_pending]) one

/-! ## One call -/

section

variable {K : Kind F} {C : Codec F} {u : Call} {db : Place → Option (Record F)}

/-- The databases while a call that nobody disturbs is at a point of its program. -/
inductive Fits (K : Kind F) (C : Codec F) (u : Call) (db : Place → Option (Record F)) :
    AcceptProg F → Prop
  | begin (placed : Placed db) : Fits K C u db (accept K C u)
  | lookup (placed : Placed db) : Fits K C u db (lookup K C u)
  | moving {ac ac2 : Record F} (at_pending : db .pending = some ac) (status : ac.Status = Pending)
      (absent : db .finished = none) (new : ac2.Status ≠ Pending) : Fits K C u db (moveRecord ac2)
  | updating {ac ac2 : Record F} (at_pending : db .pending = some ac) (status : ac.Status = Pending)
      (absent : db .finished = none) (new : ac2.Status = Pending) :
      Fits K C u db (.put .pending ac2 written)
  | storing {ac2 : Record F} (gone : db .pending = none) (absent : db .finished = none)
      (new : ac2.Status ≠ Pending) : Fits K C u db (.put .finished ac2 written)
  | done {r : Result} (placed : Placed db) : Fits K C u db (.ret r)

theorem Fits.settle {ac ac2 : Record F} (at_pending : db .pending = some ac)
    (status : ac.Status = Pending) (absent : db .finished = none) :
    Fits K C u db (settle K C ac2) := by
  have placed : Placed db := .pending at_pending status absent
  unfold AcceptStatus.settle
  split
  · exact .done placed
  · split
    · exact .done placed
    · split
      · rename_i new
        exact .moving at_pending status absent new
      · rename_i new
        exact .updating at_pending status absent (not_not.mp new)

theorem Fits.rests {prog : AcceptProg F} (fits : Fits K C u db prog) (rests : busy prog = false) :
    Placed db ∧ (prog = accept K C u ∨ ∃ r, prog = .ret r) := by
  cases fits with
  | begin placed => exact ⟨placed, .inl rfl⟩
  | done placed => exact ⟨placed, .inr ⟨_, rfl⟩⟩
  | lookup => cases rests
  | moving => cases rests
  | updating => cases rests
  | storing => cases rests

variable [DecidableEq F]

/-- A step of the call; a record that is not pending is not touched. -/
theorem Fits.step {th : Thread Place (Record F) Result} (fits : Fits K C u db th.prog)
    {fails : Bool} (stores : AcceptStatus.storing th.prog = true → fails = false) :
    Fits K C u (th.step db fails).1 (th.step db fails).2.prog ∧
      ∀ ac, stored db = some ac → ac.Status ≠ Pending → (th.step db fails).1 = db := by
  obtain ⟨prog, held, taken, puts⟩ := th
  simp only at fits stores
  cases fits with
  | begin placed =>
    simp only [accept, Thread.step]
    split
    · exact ⟨.done placed, fun _ _ _ => rfl⟩
    · exact ⟨.lookup placed, fun _ _ _ => rfl⟩
  | lookup placed =>
    simp only [AcceptStatus.lookup, Thread.step]
    split
    · rename_i ac found
      refine ⟨?_, fun _ _ _ => rfl⟩
      split at found
      · cases found
      have at_pending : db .pending = some ac := (Option.filter_eq_some_iff.mp found).1
      cases placed with
      | pending at_pending' status absent =>
        rw [at_pending] at at_pending'
        cases at_pending'
        exact .settle at_pending status absent
      | finished _ _ absent =>
        rw [at_pending] at absent
        cases absent
    · exact ⟨.done placed, fun _ _ _ => rfl⟩
  | @moving ac ac2 at_pending status absent new =>
    have still : ∀ ac', stored db = some ac' → ¬ ac'.Status ≠ Pending := by
      intro ac' found
      rw [stored, absent, at_pending] at found
      cases found
      exact not_not.mpr status
    refine ⟨?_, fun ac' found other => absurd other (still ac' found)⟩
    cases fails with
    | true => exact .done (.pending at_pending status absent)
    | false =>
      show Fits K C u (update db .pending none) (.put .finished ac2 written)
      exact .storing (update_self _ _ _) absent new
  | @updating ac ac2 at_pending status absent new =>
    have still : ∀ ac', stored db = some ac' → ¬ ac'.Status ≠ Pending := by
      intro ac' found
      rw [stored, absent, at_pending] at found
      cases found
      exact not_not.mpr status
    refine ⟨?_, fun ac' found other => absurd other (still ac' found)⟩
    cases fails with
    | true => exact .done (.pending at_pending status absent)
    | false =>
      show Fits K C u (update db .pending (some ac2)) (written true)
      exact .done (.pending (update_self _ _ _) new absent)
  | @storing ac2 gone absent new =>
    have unread : stored db = none := by
      rw [stored, absent, gone]
      rfl
    refine ⟨?_, fun ac' found => by rw [unread] at found; cases found⟩
    have succeeds : fails = false := stores rfl
    rw [succeeds]
    show Fits K C u (update db .finished (some ac2)) (written true)
    exact .done (.finished (update_self _ _ _) new gone)
  | done placed => exact ⟨.done placed, fun _ _ _ => rfl⟩

end

/-! ## Many calls -/

section

variable [DecidableEq F] {K : Kind F} {C : Codec F} {u : ℕ → Call} {c c' : Calls F}

/-- Between two careful steps: every call but one has not begun or has returned. -/
structure Quiet (K : Kind F) (C : Codec F) (u : ℕ → Call) (c : Calls F) : Prop where
  resting : ∀ j, busy (c.threads j).prog = false →
    (c.threads j).prog = accept K C (u j) ∨ ∃ r, (c.threads j).prog = .ret r
  placed : (∀ j, busy (c.threads j).prog = false) → Placed c.db
  fits : ∀ i, busy (c.threads i).prog = true → Fits K C (u i) c.db (c.threads i).prog

theorem Quiet.initial (placed : Placed db) :
    Quiet K C u (Calls.initial (accept K C) db u) where
  resting _ _ := .inl rfl
  placed _ := placed
  fits _ began := by cases began

variable {i : ℕ} {fails : Bool} (quiet : Quiet K C u c)

include quiet

/-- The call whose turn it is finds the databases as it left them. -/
theorem Quiet.fits_turn (careful : Careful c i fails) : Fits K C (u i) c.db (c.threads i).prog := by
  cases began : busy (c.threads i).prog with
  | true => exact quiet.fits i began
  | false =>
    have placed : Placed c.db := by
      refine quiet.placed fun j => ?_
      by_cases same : j = i
      · rw [same]
        exact began
      · exact careful.alone j same
    rcases quiet.resting i began with at_begin | ⟨r, returned⟩
    · rw [at_begin]
      exact .begin placed
    · rw [returned]
      exact .done placed

theorem Quiet.step (careful : Careful c i fails) : Quiet K C u (c.step i fails) := by
  obtain ⟨fits, -⟩ := (quiet.fits_turn careful).step careful.stores
  have others : ∀ j ≠ i, (c.step i fails).threads j = c.threads j :=
    fun j other => update_of_ne other _ _
  rw [← Config.step_self] at fits
  refine ⟨fun j rests => ?_, fun rests => (fits.rests (rests i)).1, fun j began => ?_⟩
  · by_cases same : j = i
    · rw [same] at rests ⊢
      exact (fits.rests rests).2
    · rw [others j same] at rests ⊢
      exact quiet.resting j rests
  · by_cases same : j = i
    · rw [same]
      exact fits
    · rw [others j same, careful.alone j same] at began
      cases began

theorem Quiet.run (run : CarefulRun c c') : Quiet K C u c' := by
  induction run with
  | start => exact quiet
  | step _ careful ih => exact ih.step careful

/-- A record that is not pending is never touched again. -/
theorem Quiet.untouched {ac : Record F} (found : stored c.db = some ac)
    (other : ac.Status ≠ Pending) (run : CarefulRun c c') : c'.db = c.db := by
  induction run with
  | start => rfl
  | @step c₁ run₁ i fails careful ih =>
    obtain ⟨-, same⟩ := ((quiet.run run₁).fits_turn careful).step careful.stores
    rw [ih] at same
    simp only [Config.step, ih]
    exact same ac found other

theorem Quiet.returned (careful : Careful c i fails) {r : Result}
    (returns : ((c.step i fails).threads i).prog = .ret r) :
    InOnePlace (c.step i fails).db := by
  obtain ⟨fits, -⟩ := (quiet.fits_turn careful).step careful.stores
  rw [← Config.step_self, returns] at fits
  exact (fits.rests rfl).1.inOnePlace

end

/-! ## What careful calls keep -/

/-- In every run of careful calls: a terminal status stays, after each call the record is in one
place, and after a call that returned an error it can be read. -/
structure KeepsRecord [DecidableEq F] (prog : Call → AcceptProg F) (db : Place → Option (Record F))
    (u : ℕ → Call) : Prop where
  terminal : ∀ {c c'}, CarefulRun (Calls.initial prog db u) c → CarefulRun c c' → ∀ {ac},
    stored c.db = some ac → Terminal ac.Status →
      ∃ ac', stored c'.db = some ac' ∧ ac'.Status = ac.Status
  one_place : ∀ {c i fails r}, CarefulRun (Calls.initial prog db u) c → Careful c i fails →
    (c.threads i).prog.finished = false → ((c.step i fails).threads i).prog = .ret r →
      InOnePlace (c.step i fails).db
  readable : ∀ {c i fails e}, CarefulRun (Calls.initial prog db u) c → Careful c i fails →
    (c.threads i).prog.finished = false → ((c.step i fails).threads i).prog = .ret (.error e) →
      (stored (c.step i fails).db).isSome

theorem keepsRecord [DecidableEq F] (K : Kind F) (C : Codec F) (placed : Placed db) (u : ℕ → Call) :
    KeepsRecord (accept K C) db u where
  terminal {c c'} run run' ac found terminal := by
    have other : ac.Status ≠ Pending := by
      rcases terminal with eq | eq | eq <;> rw [eq] <;> decide
    have quiet := (Quiet.initial placed).run run
    refine ⟨ac, ?_, rfl⟩
    rw [quiet.untouched found other run']
    exact found
  one_place run careful _ returns := ((Quiet.initial placed).run run).returned careful returns
  readable run careful _ returns :=
    (((Quiet.initial placed).run run).returned careful returns).readable

/-- All three functions, from a record that was saved in the right place. -/
theorem records_kept {u : ℕ → Call} :
    (∀ C {db}, Placed db → KeepsRecord (AcceptReqAddr C) db u) ∧
      (∀ C {db}, Placed db → KeepsRecord (AcceptSign C) db u) ∧
      (∀ C {db}, Placed db → KeepsRecord (AcceptReShare C) db u) :=
  ⟨fun C _ placed => keepsRecord _ C placed u, fun C _ placed => keepsRecord _ C placed u,
    fun C _ placed => keepsRecord _ C placed u⟩

/-! ## A fixed record -/

def fixedRecord : Record SignFixed where
  fixed := ⟨[], [], [], [], [], [], [], [], [], [], []⟩
  Initiator := []
  Deal := []
  Accept := []
  Status := Pending
  result := []
  Tip := []
  Error := []
  AllReply := []
  WorkID := 0
  Sigs := []

def savedPending : Place → Option (Record SignFixed)
  | .pending => some fixedRecord
  | .finished => none

def statusCall (status : Text) : Call := ⟨[], [], [], status, [], [], [], none, 0, []⟩

/-- The calls 0 and 1 end the command, the others update it. -/
def fixedCalls : ℕ → Call
  | 0 => statusCall Success
  | 1 => statusCall Failure
  | _ => statusCall Pending

def fixedCodec : Codec SignFixed := ⟨fun _ => true, fun _ => true⟩

theorem records_kept_saved :
    Placed savedPending ∧ KeepsRecord (AcceptSign fixedCodec) savedPending fixedCalls := by
  have placed : Placed savedPending := .pending rfl rfl rfl
  exact ⟨placed, records_kept.2.1 fixedCodec placed⟩

def signCalls : Calls SignFixed := Calls.initial (AcceptSign fixedCodec) savedPending fixedCalls

/-- Both ending calls have read the record when call 0 ends the command. -/
def overlapping : Calls SignFixed :=
  signCalls.steps [(0, false), (0, false), (1, false), (1, false), (0, false), (0, false)]

/-- The update of call 2 is written after call 0 has ended the command. -/
def lateUpdate : Calls SignFixed :=
  signCalls.steps
    [(2, false), (2, false), (0, false), (0, false), (0, false), (0, false), (2, false)]

/-- The put after the deletion fails. -/
def failedPut : Calls SignFixed :=
  signCalls.steps [(0, false), (0, false), (0, false), (0, true)]

/-- The status is `Success`, then `Failure`; the record is in both databases; it is in neither, and
the call returns an error. -/
theorem records_lost :
    ((stored overlapping.db).map Record.Status = some Success ∧
      (stored (overlapping.steps [(1, false), (1, false)]).db).map Record.Status = some Failure) ∧
    ((lateUpdate.threads 2).prog.result = some (.ok ()) ∧
      (lateUpdate.db .pending).isSome ∧ (lateUpdate.db .finished).isSome) ∧
    ((failedPut.threads 0).prog.result = some (.error .db) ∧ stored failedPut.db = none) := by
  decide +kernel

end ThresholdDsa.Smpc.AcceptStatus
