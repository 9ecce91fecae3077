/-
# Approvals of the previous command on a worker

`Clear` resets a worker while approvals of its command may still be at work on it.
What they do after that they do to the next command: a token that such an approval
sends ends the wait of the next command, and the list of replies, then empty,
counts as agreement.

`approvals_stay_with_job`: nothing of another command reaches a wait if `Clear`
starts only when no approval and no wait is left on the worker, no approval finds
a worker that does not have its threshold yet, and no key is recorded twice.
-/
import ThresholdDsa.Smpc.WorkerTenants

namespace ThresholdDsa.Smpc.WorkerPool

set_option linter.unusedSectionVars false

open Outcome GoText Recycling Function List Option

/-! ## Careful runs -/

section

variable {ι κ : Type} [Fintype ι] [DecidableEq ι] [DecidableEq κ]

def Stage.searches : Stage ι → Bool
  | .approve _ | .reply _ => true
  | _ => false

def Phase.isNamed : Phase ι → Bool
  | .named _ => true
  | _ => false

def Phase.toSave? : Phase ι → Option Job
  | .checked J => some J
  | _ => none

def Phase.returned : Phase ι → Bool
  | .ended (some _) => true
  | _ => false

def Wait.isWaiting : Wait → Bool
  | .waiting _ => true
  | _ => false

/-- An approval finds no worker that has its key but not yet its threshold; a key is recorded only
if it is not recorded; `Clear` starts only when no approval works on the worker and the wait of its
command has ended. -/
def Careful (c : Pool ι κ) : Event ι κ → Prop
  | .call k (some i) => (c.calls k).stage.searches = true → (c.phase i).isNamed = false
  | .work i _ =>
    (∀ J ∈ (c.phase i).toSave?, c.WorkID J.key = none) ∧
      ((c.phase i).returned = true →
        (∀ k, (c.calls k).stage.standing.map (·.v.w) ≠ some i) ∧
          (c.wait i (c.workers i).jobs).isWaiting = false)
  | _ => True

instance [Fintype κ] (c : Pool ι κ) : (event : Event ι κ) → Decidable (Careful c event)
  | .call _ (some _) => inferInstanceAs (Decidable (_ → _))
  | .work _ _ => inferInstanceAs (Decidable (_ ∧ _))
  | .call _ none | .token _ _ | .timeout _ _ | .other _ => inferInstanceAs (Decidable True)

variable (E : Env)

def CarefulRun : Pool ι κ → List (Event ι κ) → Prop
  | _, [] => True
  | c, event :: events => Careful c event ∧ CarefulRun (c.step E event) events

instance decidableCarefulRun [Fintype κ] (E : Env) : (events : List (Event ι κ)) →
    (c : Pool ι κ) → Decidable (CarefulRun E c events)
  | [], _ => inferInstanceAs (Decidable True)
  | event :: events, c =>
    have := decidableCarefulRun E events (c.step E event)
    inferInstanceAs (Decidable (_ ∧ _))

/-- The keys are printed by `Hash.Hex`: `0x` and digits in lower case. -/
def HexHashes : Prop :=
  ∀ t, ∃ digits, E.Keccak256Hash t = '0' :: 'x' :: digits ∧ ∀ c ∈ digits, c ∈ lowerHex

variable {E} {c : Pool ι κ}

theorem HexHashes.eq_of_equalFold (hex : HexHashes E) {s t : Text}
    (equal : E.folding.EqualFold (E.Keccak256Hash s) (E.Keccak256Hash t)) :
    E.Keccak256Hash s = E.Keccak256Hash t := by
  obtain ⟨a, a_eq, a_hex⟩ := hex s
  obtain ⟨b, b_eq, b_hex⟩ := hex t
  rw [a_eq, b_eq, Folding.equalFold_iff] at equal
  simp only [map_cons, List.cons.injEq, true_and] at equal
  have same : a = b := E.folding.eq_of_equalFold
    (fun c c_mem d d_mem => E.folding.lowerHex (a_hex c c_mem) (b_hex d d_mem))
    (Folding.equalFold_iff.mpr equal)
  rw [a_eq, b_eq, same]

variable {i : ι} {J : Job} {key : Text} {workers : ι → Worker} {phase : Phase ι} {next : Clearing}
  {w : Worker}

/-- An approval finds its command on a worker that has its threshold. -/
theorem Kept.found (kept : Kept E c) (hex : HexHashes E) (has : c.hasKey E key i)
    (known : ∃ id, c.WorkID key = some id) (ready : (c.phase i).isNamed = false) :
    c.site.tenant i = some ⟨key, (c.workers i).jobs⟩ := by
  simp only [Pool.hasKey, decide_eq_true_eq] at has
  obtain ⟨named_ne, equal⟩ := has
  have seat := kept.seat i
  rw [seat.sid] at named_ne equal
  cases named : (c.phase i).named? with
  | none => simp [named] at named_ne
  | some J =>
    have tenant : (c.phase i).tenant? = some J := by
      cases phase : c.phase i <;> simp_all [Phase.named?, Phase.isNamed]
    obtain ⟨s, s_eq⟩ := kept.hashed (seat.recorded (Phase.recorded_of_named named))
    obtain ⟨id, known⟩ := known
    obtain ⟨t, t_eq⟩ := kept.hashed known
    have same : J.key = key := by
      rw [named, map_some, getD_some, s_eq, t_eq] at equal
      rw [s_eq, t_eq]
      exact hex.eq_of_equalFold equal
    exact site_tenant_eq.mpr ⟨J, tenant, by rw [same]⟩

/-! ## Steps of approvals -/

theorem keeps_call (k : κ) {stage : Stage ι}
    (requests : ∀ r, stage = .approve r → (c.calls k).stage = .approve r ∨ c.WorkID r.sig.Key = some r.WorkID)
    (asks : ∀ key, stage = .reply key → (c.calls k).stage = .reply key ∨ ∃ id, c.WorkID key = some id)
    (standings : ∀ t, stage.standing = some t → (∃ s,
      (c.calls k).stage.standing = some s ∧ Follows c.WorkID c.workers s t) ∨ Enters c t)
    (touched : ∀ i, workers i = c.workers i ∨ Touched E c i (workers i)) :
    Keeps E c { c.setStage k stage with workers } where
  WorkID := rfl
  view _ := rfl
  jobs _ _ := .inl
  waits _ _ _ := .inl
  requests k' r stage_eq := by
    by_cases here : k' = k
    · subst here
      exact requests r (by simpa [Pool.setStage] using stage_eq)
    · exact .inl (by simpa [Pool.setStage, here] using stage_eq)
  asks k' key stage_eq := by
    by_cases here : k' = k
    · subst here
      exact asks key (by simpa [Pool.setStage] using stage_eq)
    · exact .inl (by simpa [Pool.setStage, here] using stage_eq)
  standings x t standing := by
    rcases x with k' | own
    · by_cases here : k' = k
      · subst here
        exact standings t (by simpa [Pool.standing, Pool.setStage] using standing)
      · refine .inl ⟨t, ?_, .refl t⟩
        simpa [Pool.standing, Pool.setStage, here] using standing
    · exact .inl ⟨t, standing, .refl t⟩
  workers := touched

/-- The step of an approval that works on a worker. -/
theorem Kept.acts (kept : Kept E c) {k : κ} {s : Standing ι} {stage : Stage ι}
    (standing : (c.calls k).stage.standing = some s) (working : stage.searches = false)
    (acts : Acts c.WorkID s c.workers workers stage.standing) :
    Kept E { c.setStage k stage with workers } := by
  refine kept.keep (keeps_call k (fun r approve => ?_) (fun key reply => ?_) (fun t next => .inl ?_)
    fun i => kept.touched (x := .inl k) standing acts i)
  · simp [approve, Stage.searches] at working
  · simp [reply, Stage.searches] at working
  · refine ⟨s, standing, ?_⟩
    generalize stage.standing = s' at acts next
    cases acts with
    | move _ follows => exact follows t next
    | change _ _ _ follows => exact follows t next
    | send => cases next

theorem Kept.beginCall (kept : Kept E c) (k : κ) :
    Kept E (c.setStage k (c.beginCall E (c.calls k))) := by
  have unchanged : ∀ i, c.workers i = c.workers i ∨ Touched E c i (c.workers i) := fun _ => .inl rfl
  have cases : (c.beginCall E (c.calls k) = .done) ∨ ∃ sender sig ac id,
      c.WorkID sig.Key = some id ∧ (c.beginCall E (c.calls k) = .reply sig.Key ∨
        c.beginCall E (c.calls k) = .approve ⟨sender, sig, ac, id⟩) := by
    unfold Pool.beginCall
    split
    · split
      · next sender _ sig _ _ _ ac id _ named =>
        refine .inr ⟨sender, sig, ac, id, named, ?_⟩
        split
        · exact .inl rfl
        · exact .inr rfl
      · exact .inl rfl
    · exact .inl rfl
  refine kept.keep (keeps_call k (fun r approve => .inr ?_) (fun key reply => .inr ?_)
    (fun t next => ?_) unchanged)
  · obtain done | ⟨sender, sig, ac, id, named, reply | request⟩ := cases
    · cases done.symm.trans approve
    · cases reply.symm.trans approve
    · cases request.symm.trans approve
      exact named
  · obtain done | ⟨sender, sig, ac, id, named, reply' | request⟩ := cases
    · cases done.symm.trans reply
    · cases reply'.symm.trans reply
      exact ⟨id, named⟩
    · cases request.symm.trans reply
  · obtain done | ⟨sender, sig, ac, id, -, reply | request⟩ := cases
    · simp [done, Stage.standing] at next
    · simp [reply, Stage.standing] at next
    · simp [request, Stage.standing] at next

theorem Kept.search (kept : Kept E c) (hex : HexHashes E) {k : κ} {pick : Option ι}
    {search : Stage ι} {found : Visitor ι → Stage ι} (here : (c.calls k).stage = search)
    (searches : search.standing = none) (known : ∃ id, c.WorkID key = some id)
    (working : ∀ v, (found v).searches = false)
    (enters : ∀ v, ∃ target, (found v).standing = some ⟨v, target, none⟩ ∧
      ∀ id, target = some id → c.WorkID key = some id)
    (ready : ∀ i, pick = some i → (c.phase i).isNamed = false) :
    Kept E (c.setStage k (c.FindWorker E key pick search found)) := by
  have cases : (∃ i, pick = some i ∧ c.hasKey E key i ∧ c.FindWorker E key pick search found =
        found ⟨i, ⟨key, (c.workers i).jobs⟩⟩) ∨
      c.FindWorker E key pick search found = search ∨
      c.FindWorker E key pick search found = .done := by
    unfold Pool.FindWorker
    cases pick with
    | some i =>
      by_cases has : c.hasKey E key i
      · exact .inl ⟨i, rfl, has, if_pos has⟩
      · exact .inr (.inl (if_neg has))
    | none =>
      simp only [reduceCtorEq, false_and, exists_false, false_or]
      split
      · exact .inl rfl
      · exact .inr rfl
  refine kept.keep (keeps_call k (fun r approve => .inl ?_) (fun key' reply => .inl ?_)
    (fun t next => ?_) fun _ => .inl rfl)
  · obtain ⟨i, -, -, found_eq⟩ | same | done := cases
    · have := working ⟨i, ⟨key, (c.workers i).jobs⟩⟩
      rw [← found_eq, approve] at this
      cases this
    · rw [here, ← same, approve]
    · cases done.symm.trans approve
  · obtain ⟨i, -, -, found_eq⟩ | same | done := cases
    · have := working ⟨i, ⟨key, (c.workers i).jobs⟩⟩
      rw [← found_eq, reply] at this
      cases this
    · rw [here, ← same, reply]
    · cases done.symm.trans reply
  · obtain ⟨i, picked, has, found_eq⟩ | same | done := cases
    · obtain ⟨target, standing, named⟩ := enters ⟨i, ⟨key, (c.workers i).jobs⟩⟩
      rw [found_eq, standing] at next
      cases next
      exact .inr ⟨kept.found hex has known (ready i picked), named, rfl⟩
    · simp [same, searches] at next
    · simp [done, Stage.standing] at next

theorem Kept.call (kept : Kept E c) (hex : HexHashes E) (k : κ) (pick : Option ι)
    (careful : Careful c (.call k pick)) : Kept E (c.call E k pick) := by
  unfold Pool.call
  have ready (searches : (c.calls k).stage.searches = true) :
      ∀ i, pick = some i → (c.phase i).isNamed = false := by
    rintro i rfl
    exact careful searches
  split
  · exact kept.beginCall k
  · next r stage =>
    have named := kept.request stage
    exact kept.search hex stage rfl ⟨_, named⟩ (fun _ => rfl)
      (fun v => ⟨some r.WorkID, rfl, fun id same => same ▸ named⟩) (ready (by rw [stage]; rfl))
  · next key stage =>
    exact kept.search hex stage rfl (kept.asked stage) (fun _ => rfl)
      (fun v => ⟨none, rfl, fun id none_eq => by cases none_eq⟩) (ready (by rw [stage]; rfl))
  · next v r p stage =>
    split
    · exact kept.keep ⟨rfl, fun _ => rfl, fun _ _ => .inl, fun _ _ _ => .inl, fun _ _ => .inl,
        fun _ _ => .inl, fun _ t standing => .inl ⟨t, standing, .refl t⟩, fun _ => .inl rfl⟩
    · next workers p' next_eq =>
      refine kept.acts (s := ⟨v, some r.WorkID, p.count⟩) (by rw [stage]; rfl) ?_ ?_
      · cases p' <;> rfl
      · have acts : Acts c.WorkID ⟨v, some r.WorkID, p.count⟩ c.workers workers
            (p'.map fun p' => ⟨v, some r.WorkID, p'.count⟩) := Approving.acts next_eq
        cases p' <;> exact acts
  · next v p stage =>
    have acts := Collecting.acts E c.db (c.calls k).raw c.WorkID v c.workers p
    split
    next workers p' next_eq =>
      rw [next_eq] at acts
      refine kept.acts (s := ⟨v, p.WorkID, p.count⟩) (by rw [stage]; rfl) ?_ ?_
      · cases p' <;> rfl
      · cases p' <;> exact acts
  · exact kept

/-! ## Steps of workers -/

theorem keeps_phase (i : ι) (view : phase.view = (c.phase i).view)
    (jobs : ∀ J, phase.job? = some J → (c.phase i).job? = some J ∨ Issued E J)
    (standings : ∀ t, phase.standing i = some t → (∃ s,
      (c.phase i).standing i = some s ∧ Follows c.WorkID c.workers s t) ∨ Enters c t)
    (touched : ∀ i, workers i = c.workers i ∨ Touched E c i (workers i)) :
    Keeps E c { c.setPhase i phase with workers } where
  WorkID := rfl
  view j := by
    by_cases here : j = i
    · subst here
      simpa [Pool.setPhase] using view
    · simp [Pool.setPhase, here]
  jobs j J job := by
    by_cases here : j = i
    · subst here
      exact jobs J (by simpa [Pool.setPhase] using job)
    · exact .inl (by simpa [Pool.setPhase, here] using job)
  waits _ _ _ := .inl
  requests _ _ := .inl
  asks _ _ := .inl
  standings x t standing := by
    rcases x with k | own
    · exact .inl ⟨t, standing, .refl t⟩
    · by_cases here : own = i
      · subst here
        exact standings t (by simpa [Pool.standing, Pool.setPhase] using standing)
      · refine .inl ⟨t, ?_, .refl t⟩
        simpa [Pool.standing, Pool.setPhase, here] using standing
  workers := touched

/-- A step that only reads. -/
theorem Kept.setPhase (kept : Kept E c) (i : ι) (view : phase.view = (c.phase i).view)
    (jobs : ∀ J, phase.job? = some J → (c.phase i).job? = some J ∨ Issued E J)
    (quiet : phase.standing i = none) : Kept E (c.setPhase i phase) :=
  kept.keep (keeps_phase i view jobs (fun t standing => by simp [quiet] at standing)
    fun _ => .inl rfl)

/-- `DoSign` goes on without a new command. -/
theorem Kept.proceed (kept : Kept E c) {phase' : Phase ι} (here : c.phase i = phase)
    (view : phase'.view = phase.view) (job : phase'.job? = phase.job?)
    (quiet : phase'.standing i = none) : Kept E (c.setPhase i phase') :=
  kept.setPhase i (by rw [here, view]) (fun J found => .inl (by rw [here, ← job, found])) quiet

theorem issued_of_checkRaw {db : Db} {raw : Text} {tx : Tx} {sig : TxDataSign}
    (checked : CheckRaw E db raw = .ok (key, tx)) (data : tx.data = .sign sig) :
    Issued E ⟨raw, key, tx, sig⟩ := by
  obtain ⟨decoded, checked⟩ := checkRaw_eq_ok.mp checked
  refine ⟨decoded, data, ?_⟩
  rw [CheckTxData, data] at checked
  simp only [checkSign, bind_eq_ok] at checked
  obtain ⟨-, -, -, -, -, -, ⟨limit, nodecnt⟩, -, -, -, -, -, -, -, -, -, -, -, -, -, -, -, -, -, made⟩ :=
    checked
  exact made

/-- A command has one key, whatever the databases hold. -/
theorem Issued.key_eq (issued : Issued E J) {db : Db} {tx : Tx}
    (checked : CheckRaw E db J.raw = .ok (key, tx)) : key = J.key := by
  obtain rfl : J.tx = tx :=
    Option.some.inj (issued.decoded.symm.trans (checkRaw_eq_ok.mp checked).1)
  have again := (issued_of_checkRaw checked issued.data).key
  exact Except.ok.inj (again.symm.trans issued.key)

theorem Issued.hashed (issued : Issued E J) : ∃ t, J.key = E.Keccak256Hash t := by
  have made := issued.key
  simp only [signKey, eq_ok] at made
  obtain ⟨hash, -, key_eq⟩ := made
  exact ⟨_, key_eq.symm⟩

theorem Kept.beginJob (kept : Kept E c) (idle : c.phase i = .idle) (raw : Text) :
    Kept E (c.setPhase i (c.beginJob E raw)) := by
  have cases : c.beginJob E raw = .ended none ∨
      ∃ J, c.beginJob E raw = .checked J ∧ Issued E J := by
    unfold Pool.beginJob
    split
    · next checked =>
      split
      · next data =>
        split
        · exact .inr ⟨_, rfl, issued_of_checkRaw checked data⟩
        · exact .inl rfl
      · exact .inl rfl
    · exact .inl rfl
  rcases cases with refused | ⟨J, checked, issued⟩
  · rw [refused]
    exact kept.setPhase i (by rw [idle]; rfl) (fun J job => by cases job) rfl
  · rw [checked]
    refine kept.setPhase i (by rw [idle]; rfl) (fun J' job => .inr ?_) rfl
    cases job
    exact issued

/-- A key that had no record gets one; the records made before stay. -/
theorem Kept.record (kept : Kept E c) (i : ι) (issued : Issued E J)
    (unrecorded : c.WorkID J.key = none) (db : Db) :
    Kept E { c with db, WorkID := update c.WorkID J.key (some i) } := by
  have keeps {key : Text} {id : ι} (named : c.WorkID key = some id) :
      update c.WorkID J.key (some i) key = some id := by
    rw [update_of_ne, named]
    rintro rfl
    cases unrecorded.symm.trans named
  refine ⟨kept.hosted, fun j => ?_, fun {key j} named => ?_,
    fun {k r} stage => keeps (kept.request stage), fun {k key} stage => ?_,
    fun {x s} standing => ?_⟩
  · exact { kept.seat j with recorded := fun recorded => keeps ((kept.seat j).recorded recorded) }
  · by_cases here : key = J.key
    · subst here
      exact issued.hashed
    · exact kept.hashed ((update_of_ne here (some i) c.WorkID).symm.trans named)
  · obtain ⟨id, named⟩ := kept.asked stage
    exact ⟨id, keeps named⟩
  · have sound := kept.standing standing
    exact ⟨fun {id} target => keeps (sound.target target), sound.full⟩

theorem setWorker_self (c : Pool ι κ) (i : ι) : c.setWorker i (c.workers i) = c := by
  simp [Pool.setWorker]

theorem Kept.save (kept : Kept E c) (checked : c.phase i = .checked J)
    (unrecorded : c.WorkID J.key = none) (db : Db) :
    Kept E { c.setPhase i (.saved J) with
      db, WorkID := update c.WorkID J.key (some i) } := by
  have seat := kept.seat i
  rw [checked] at seat
  have vacant : (c.phase i).tenant? = none := by rw [checked]; rfl
  let c' : Pool ι κ := { c with db, WorkID := update c.WorkID J.key (some i) }
  have turned : Kept E ((c'.setPhase i (.saved J)).setWorker i (c.workers i)) :=
    (kept.record i (seat.issued rfl) unrecorded db).turn (kept.alone_of_vacant vacant) rfl
      { seat with recorded := fun job => by cases job; exact update_self .. }
      (fun _ => id) (fun _ tenant => by cases tenant)
  have same := setWorker_self (c'.setPhase i (.saved J)) i
  have saved : Kept E (c'.setPhase i (.saved J)) := same ▸ turned
  exact saved

theorem Kept.name (kept : Kept E c) (saved : c.phase i = .saved J) :
    Kept E ((c.setPhase i (.named J)).setWorker i
      { c.workers i with sid := J.key, jobs := (c.workers i).jobs + 1 }) := by
  have seat := kept.seat i
  rw [saved] at seat
  have vacant : (c.phase i).tenant? = none := by rw [saved]; rfl
  exact kept.turn (kept.alone_of_vacant vacant) rfl { seat with sid := rfl } (fun _ => id)
    (fun _ tenant => by cases tenant)

theorem Kept.settle (kept : Kept E c) (named : c.phase i = .named J) :
    Kept E ((c.setPhase i (.ready J)).setWorker i
      { c.workers i with ThresHold := J.threshold E }) := by
  have seat := kept.seat i
  rw [named] at seat
  have vacant : (c.phase i).tenant? = none := by rw [named]; rfl
  have empty : (c.workers i).left = [] := by
    simp [Worker.left, seat.list rfl, seat.chan rfl, seat.replys rfl]
  refine kept.turn (kept.alone_of_vacant vacant) rfl ?_ (fun _ => id) (fun _ _ => empty)
  exact {
    seat with
    need := fun tenant => by cases tenant; rfl
    list := fun unused => by cases unused
    chan := fun unused => by cases unused
    replys := fun unused => by cases unused
    token := fun holds => by cases (seat.chan rfl).symm.trans holds }

/-- The wait starts, and `DisAcceptMsg` counts the command itself. -/
theorem Kept.await (kept : Kept E c) (ready : c.phase i = .ready J) :
    Kept E ((c.setPhase i (c.countOwn E J (c.workers i).jobs)).setWait i (c.workers i).jobs
      (.waiting J.key)) := by
  have issued : Issued E J := (kept.seat i).issued (by rw [ready]; rfl)
  have tenant : c.site.tenant i = some ⟨J.key, (c.workers i).jobs⟩ :=
    site_tenant_eq.mpr ⟨J, by rw [ready]; rfl, rfl⟩
  have cases : c.countOwn E J (c.workers i).jobs = .lookup J ∨
      c.countOwn E J (c.workers i).jobs = .collect J ⟨J.key, (c.workers i).jobs⟩ .called := by
    unfold Pool.countOwn
    split
    · next checked =>
      right
      rw [issued.key_eq checked]
    · exact .inl rfl
  have turns : Keeps E c (c.setPhase i (c.countOwn E J (c.workers i).jobs)) := by
    refine keeps_phase i ?_ (fun J' job => .inl ?_) (fun t standing => .inr ?_) fun _ => .inl rfl
    · rcases cases with phase | phase <;> rw [phase, ready] <;> rfl
    · rw [ready]
      rcases cases with phase | phase <;> rw [phase] at job <;> exact job
    · rcases cases with phase | phase <;> rw [phase] at standing <;> cases standing
      exact ⟨tenant, fun id target => (by cases target), rfl⟩
  refine kept.keep { turns with waits := fun j n key waiting => ?_ }
  by_cases here : j = i ∧ n = (c.workers i).jobs
  · obtain ⟨rfl, rfl⟩ := here
    obtain rfl : J.key = key := by simpa [Pool.setWait] using waiting
    exact .inr tenant
  · left
    by_cases same : j = i
    · subst same
      have other : n ≠ (c.workers j).jobs := fun n_eq => here ⟨rfl, n_eq⟩
      simpa [Pool.setWait, Pool.setPhase, other] using waiting
    · simpa [Pool.setWait, Pool.setPhase, same] using waiting

theorem Kept.collect (kept : Kept E c) {tag : Tag} {p : Collecting ι}
    (here : c.phase i = .collect J tag p) {p' : Option (Collecting ι)}
    (next : p.next E c.db J.raw c.WorkID ⟨i, tag⟩ c.workers = (workers, p')) :
    Kept E { c.setPhase i (p'.elim (.lookup J) (.collect J tag)) with workers } := by
  have acts := Collecting.acts E c.db J.raw c.WorkID ⟨i, tag⟩ c.workers p
  rw [next] at acts
  have standing : c.standing (.inr i) = some ⟨⟨i, tag⟩, p.WorkID, p.count⟩ := by
    simp [Pool.standing, here, Phase.standing]
  refine kept.keep (keeps_phase i ?_ (fun J' job => .inl ?_) (fun t goes => .inl ?_)
    fun j => kept.touched standing acts j)
  · rw [here]
    cases p' <;> rfl
  · rw [here]
    cases p' <;> exact job
  · refine ⟨_, standing, ?_⟩
    have goes : p'.map (fun p' => (⟨⟨i, tag⟩, p'.WorkID, p'.count⟩ : Standing ι)) = some t := by
      cases p' <;> exact goes
    rw [goes] at acts
    cases acts with
    | move _ follows => exact follows t rfl
    | change _ _ _ follows => exact follows t rfl

/-- Nobody is at work on a worker when `Clear` starts. -/
theorem Kept.alone_of_careful (kept : Kept E c) (ended : c.phase i = .ended (some J))
    (left : ∀ k, (c.calls k).stage.standing.map (·.v.w) ≠ some i)
    (past : (c.wait i (c.workers i).jobs).isWaiting = false) (v : (κ ⊕ ι) ⊕ (ι × ℕ)) (t : Tag) :
    c.site.visit v ≠ some (i, t) := by
  intro visits
  rcases v with (k | own) | wait
  · rw [site_visit_standing, map_eq_some_iff] at visits
    obtain ⟨s, standing, place⟩ := visits
    cases place
    refine left k ?_
    have standing : (c.calls k).stage.standing = some s := standing
    rw [standing, map_some]
  · rw [site_visit_standing, map_eq_some_iff] at visits
    obtain ⟨s, standing, place⟩ := visits
    cases place
    have own_eq : s.v.w = own := by
      simp only [Pool.standing, Phase.standing] at standing
      split at standing <;> cases standing
      rfl
    simp [Pool.standing, ← own_eq, ended, Phase.standing] at standing
  · obtain ⟨j, n⟩ := wait
    obtain ⟨_, -, tag_eq⟩ := site_tenant_eq.mp (kept.hosted.visitor visits)
    obtain ⟨rfl, waiting, rfl⟩ := site_visit_wait.mp visits
    have now : t.job = (c.workers j).jobs := by rw [← tag_eq]
    simp [← now, waiting, Wait.isWaiting] at past

theorem Kept.vacate (kept : Kept E c) (alone : ∀ v t, c.site.visit v ≠ some (i, t)) :
    Kept E ((c.setPhase i (.clear .approved)).setWorker i { c.workers i with sid := [] }) :=
  kept.turn alone rfl
    { issued := fun job => by cases job
      recorded := fun job => by cases job
      sid := rfl
      need := fun tenant => by cases tenant
      list := fun unused => by cases unused
      chan := fun unused => by cases unused
      replys := fun unused => by cases unused
      token := fun _ tenant => by cases tenant }
    (fun _ => id) (fun _ tenant => by cases tenant)

/-- An assignment of `Clear` leaves less than there was. -/
theorem left_of_assign {x : Tag} (mem : x ∈ (next.assign w).left) :
    x ∈ w.left := by
  cases next with
  | approved | thresHold | bacceptsignres => exact mem
  | msgacceptsignres =>
    rcases mem_append.mp mem with token | replied
    · exact mem_append_left _ token
    · exact mem_append_right _ (mem_append_right _ replied)
  | acceptSignChan => exact mem_append_right _ mem
  | approvReplys =>
    simp only [Worker.left, Clearing.assign, append_nil] at mem
    rcases mem_append.mp mem with token | counted
    · exact mem_append_left _ token
    · exact mem_append_right _ (mem_append_left _ counted)

theorem Seat.assign {WorkID : Text → Option ι} (seat : Seat E WorkID i (.clear next) w) :
    Seat E WorkID i next.after (next.assign w) := by
  have sid : w.sid = [] := seat.sid
  have list := seat.list
  have chan := seat.chan
  have replys := seat.replys
  constructor
  all_goals
    cases next <;>
      simp_all [Clearing.after, Clearing.assign, Phase.job?, Phase.recorded?, Phase.named?,
        Phase.tenant?, Phase.used]

theorem Kept.clear (kept : Kept E c) (clears : c.phase i = .clear next) :
    Kept E ((c.setPhase i next.after).setWorker i (next.assign (c.workers i))) := by
  have seat := kept.seat i
  rw [clears] at seat
  have vacant : (c.phase i).tenant? = none := by rw [clears]; rfl
  refine kept.turn (kept.alone_of_vacant vacant) ?_ seat.assign (fun _ => left_of_assign) ?_
  · cases next <;> rfl
  · cases next <;> exact fun _ tenant => by cases tenant

theorem Kept.work (kept : Kept E c) (i : ι) (raw : Text) (careful : Careful c (.work i raw)) :
    Kept E (c.work E i raw) := by
  unfold Pool.work
  obtain ⟨unrecorded, left⟩ := careful
  split
  · next idle => exact kept.beginJob idle raw
  · next J checked =>
    exact kept.save checked (unrecorded J (by rw [checked]; rfl)) _
  · next J saved => exact kept.name saved
  · next J named => exact kept.settle named
  · next J ready =>
    split
    · exact kept.await ready
    · exact kept.proceed ready rfl rfl rfl
  · next J tag p here =>
    split
    next next_eq => exact kept.collect here next_eq
  · next J lookup =>
    split
    · exact kept.proceed lookup rfl rfl rfl
    · exact kept.proceed lookup rfl rfl rfl
  · next J await =>
    dsimp only
    split
    · exact kept.proceed await rfl rfl rfl
    · exact kept.proceed await rfl rfl rfl
    · exact kept
  · next J signing =>
    exact kept.proceed signing rfl rfl rfl
  · next J ended =>
    cases J with
    | none =>
      have vacant : (c.phase i).tenant? = none := by rw [ended]; rfl
      exact kept.vacate (kept.alone_of_vacant vacant)
    | some J =>
      obtain ⟨calls, past⟩ := left (by rw [ended]; rfl)
      exact kept.vacate (kept.alone_of_careful ended calls past)
  · next clears => exact kept.clear clears

/-! ## Waits -/

theorem keeps_wait {n : ℕ} {wait : Wait} (ends : wait.isWaiting = false)
    (touched : w = c.workers i ∨ Touched E c i w) :
    Keeps E c ((c.setWorker i w).setWait i n wait) where
  WorkID := rfl
  view _ := rfl
  jobs _ _ := .inl
  waits j m key waiting := by
    left
    by_cases here : j = i
    · subst here
      by_cases same : m = n
      · subst same
        have now : wait = .waiting key := by simpa [Pool.setWait] using waiting
        simp [now, Wait.isWaiting] at ends
      · simpa [Pool.setWait, Pool.setWorker, same] using waiting
    · simpa [Pool.setWait, Pool.setWorker, here] using waiting
  requests _ _ := .inl
  asks _ _ := .inl
  standings _ t standing := .inl ⟨t, standing, .refl t⟩
  workers j := by
    by_cases here : j = i
    · subst here
      simpa [Pool.setWait, Pool.setWorker] using touched
    · left
      simp [Pool.setWait, Pool.setWorker, here]

theorem Kept.readToken (kept : Kept E c) (i : ι) (n : ℕ) : Kept E (c.readToken E i n) := by
  unfold Pool.readToken
  dsimp only
  split
  · next key token waiting holds =>
    -- the wait is a visitor, so the worker has a tenant
    have visits : c.site.visit (.inr (i, n)) = some (i, ⟨key, n⟩) :=
      site_visit_wait.mpr ⟨rfl, waiting, rfl⟩
    obtain ⟨J, tenant, -⟩ := site_tenant_eq.mp (kept.hosted.visitor visits)
    refine kept.keep (keeps_wait ?_ (.inr ⟨by simp [tenant], rfl, rfl, rfl, fun x mem => .inl ?_,
      fun t none_eq => by cases none_eq⟩))
    · split <;> rfl
    · exact mem_append_right _ mem
  · exact kept

theorem Kept.step (kept : Kept E c) (hex : HexHashes E) {event : Event ι κ}
    (careful : Careful c event) : Kept E (c.step E event) := by
  unfold Pool.step
  split
  · exact kept
  cases event with
  | call k pick => exact kept.call hex k pick careful
  | work i raw => exact kept.work i raw careful
  | token i n => exact kept.readToken i n
  | timeout i n =>
    dsimp only
    split
    · have refused : Wait.refused.isWaiting = false := rfl
      have ended := kept.keep (keeps_wait (i := i) (n := n) refused (.inl rfl))
      rwa [setWorker_self] at ended
    · exact kept
  | other db => exact kept.keep ⟨rfl, fun _ => rfl, fun _ _ => .inl, fun _ _ _ => .inl,
      fun _ _ => .inl, fun _ _ => .inl, fun _ t standing => .inl ⟨t, standing, .refl t⟩,
      fun _ => .inl rfl⟩

theorem Kept.run (kept : Kept E c) (hex : HexHashes E) {events : List (Event ι κ)}
    (careful : CarefulRun E c events) : Kept E (c.run E events) := by
  induction events generalizing c with
  | nil => exact kept
  | cons event events ih => exact ih (kept.step hex careful.1) careful.2

/-- The pool when the process starts: the workers are new, no approval has begun; records of an
earlier process are kept under keys. -/
structure Fresh (E : Env) (c : Pool ι κ) : Prop where
  workers : ∀ i, c.workers i = newWorker
  phase : ∀ i, c.phase i = .idle
  wait : ∀ i n, c.wait i n = .none
  calls : ∀ k, (c.calls k).stage = .new
  hashed : ∀ {key i}, c.WorkID key = some i → ∃ t, key = E.Keccak256Hash t

theorem Fresh.kept (fresh : Fresh E c) : Kept E c where
  hosted := by
    refine ⟨fun {v i t} visits => ?_, fun {i t x} tenant => ?_⟩
    · rcases v with (k | own) | wait
      · simp [site_visit_standing, Pool.standing, fresh.calls k, Stage.standing] at visits
      · simp [site_visit_standing, Pool.standing, fresh.phase own, Phase.standing] at visits
      · obtain ⟨-, waiting, -⟩ := site_visit_wait.mp visits
        simp [fresh.wait] at waiting
    · obtain ⟨J, tenant, -⟩ := site_tenant_eq.mp tenant
      simp [fresh.phase i, Phase.tenant?] at tenant
  seat i := by
    rw [fresh.phase i, fresh.workers i]
    constructor <;> simp [Phase.job?, Phase.recorded?, Phase.named?, Phase.tenant?, newWorker]
  hashed := fresh.hashed
  request {k r} stage := by simp [fresh.calls k] at stage
  asked {k key} stage := by simp [fresh.calls k] at stage
  standing {x s} standing := by
    rcases x with k | own
    · simp [Pool.standing, fresh.calls k, Stage.standing] at standing
    · simp [Pool.standing, fresh.phase own, Phase.standing] at standing

end

/-- **Approvals stay with their command.**  In every careful run, whatever approvals, commands and
waits take turns on the workers: when the wait of job `n` of a worker, for the command `key`, finds
a token, the token was sent for that command, in that job, by a call that had found as many
transactions in the worker's list as the group of the command has nodes; and all transactions
counted and all replies recorded on the worker are of that command and job. -/
theorem approvals_stay_with_job {ι κ : Type} [Fintype ι] [DecidableEq ι] [DecidableEq κ] {E : Env}
    (hex : HexHashes E) {c : Pool ι κ} (fresh : Fresh E c) {events : List (Event ι κ)}
    (careful : CarefulRun E c events) {i : ι} {n : ℕ} {key : Text} {token : Token}
    (waits : (c.run E events).wait i n = .waiting key)
    (reads : ((c.run E events).workers i).acceptSignChan = some token) :
    token.tag = ⟨key, n⟩ ∧
    (∃ J, ((c.run E events).phase i).tenant? = some J ∧ J.key = key ∧
      J.threshold E ≤ token.count) ∧
    ∀ tag ∈ ((c.run E events).workers i).counted ++ ((c.run E events).workers i).replied,
      tag = ⟨key, n⟩ := by
  have kept := fresh.kept.run hex careful
  have visits : (c.run E events).site.visit (.inr (i, n)) = some (i, ⟨key, n⟩) :=
    site_visit_wait.mpr ⟨rfl, waits, rfl⟩
  have hosted := kept.hosted.visitor visits
  obtain ⟨J, tenant, tag_eq⟩ := site_tenant_eq.mp hosted
  refine ⟨kept.hosted.left hosted ?_, ⟨J, tenant, ?_, (kept.seat i).token reads tenant⟩,
    fun tag mem => kept.hosted.left hosted (mem_append_right _ mem)⟩
  · refine mem_append_left _ ?_
    rw [reads]
    exact mem_singleton_self _
  · exact congrArg Tag.key tag_eq

/-! ## One worker, two commands

A group of two nodes.  The texts `1` and `2` are sign commands of the accounts of the two nodes; `a`
and `b` are the approvals of the first command by the first and by the second account, `c` is the
approval of the second command by the first account. -/

section

open TwoNodes

def keyOf (c : Char) : Text := ['0', 'x', c]

def acceptOf (c : Char) : TxDataAcceptSign := { accept AGREE with Key := keyOf c }

/-- The hash keeps the first character, that of the sender. -/
def reuseEnv : Env := { env with
  Keccak256Hash := fun t => '0' :: 'x' :: (t.take 1).filter (· ∈ lowerHex)
  decode := fun
    | ['a'] => some ⟨account '1', 0, .acceptSign (acceptOf '1')⟩
    | ['b'] => some ⟨account '2', 0, .acceptSign (acceptOf '1')⟩
    | ['c'] => some ⟨account '1', 0, .acceptSign (acceptOf '2')⟩
    | [c] => some ⟨account c, 0, .sign signData⟩
    | _ => none }

/-- A pool of one worker, and the approval `b` beside another one. -/
def startPool (other : Char) : Pool Unit Bool where
  db := { TwoNodes.db with signInfo := fun _ => none }
  WorkID _ := none
  workers _ := newWorker
  phase _ := .idle
  wait _ _ := .none
  calls isOther := ⟨false, if isOther then [other] else ['b'], .new⟩
  stopped := false

theorem startPool_fresh (other : Char) : Fresh reuseEnv (startPool other) where
  workers _ := rfl
  phase _ := rfl
  wait _ _ := rfl
  calls _ := rfl
  hashed named := by cases named

theorem reuseEnv_hex : HexHashes reuseEnv := by
  intro t
  refine ⟨_, rfl, fun c mem => ?_⟩
  simpa using (mem_filter.mp mem).2

def works (command : Char) (n : ℕ) : List (Event Unit Bool) := List.replicate n (.work () [command])

def calls (isOther : Bool) (n : ℕ) : List (Event Unit Bool) :=
  List.replicate n (.call isOther (some ()))

/-- The first command is approved, signed and cleared, then the second one is approved. -/
def inTurn : List (Event Unit Bool) :=
  works '1' 10 ++ calls false 12 ++ [.token () 1] ++ works '1' 9 ++ works '2' 10 ++ calls true 12

/-- Both approvals of the first command find the list long enough.  The second one waits for room in
`bacceptsignres` until `Clear` has emptied it, and sends the other token when the second command is
waiting. -/
def overlapping : List (Event Unit Bool) :=
  works '1' 10 ++ calls false 8 ++ calls true 8 ++ calls false 4 ++ [.token () 1] ++ calls true 3 ++
    works '1' 9 ++ calls true 1 ++ works '2' 10 ++ calls true 1

theorem approvals_stay_with_job_in_turn :
    let c := (startPool 'c').run reuseEnv inTurn
    ∃ token, (c.workers ()).acceptSignChan = some token ∧ token.tag = ⟨keyOf '2', 2⟩ ∧
      ∀ tag ∈ (c.workers ()).counted ++ (c.workers ()).replied, tag = ⟨keyOf '2', 2⟩ := by
  have careful : CarefulRun reuseEnv (startPool 'c') inTurn := by decide +kernel
  have waits : ((startPool 'c').run reuseEnv inTurn).wait () 2 = .waiting (keyOf '2') := by
    decide +kernel
  have reads : (((startPool 'c').run reuseEnv inTurn).workers ()).acceptSignChan =
      some ⟨⟨keyOf '2', 2⟩, 2⟩ := by decide +kernel
  obtain ⟨tag_eq, -, stays⟩ :=
    approvals_stay_with_job reuseEnv_hex (startPool_fresh 'c') careful waits reads
  exact ⟨_, reads, tag_eq, stays⟩

/-- The wait of the second command ends with the token of the first one: of two transactions only
the command itself is counted, no reply is recorded, and the command counts as approved. -/
theorem token_of_previous_command :
    Fresh reuseEnv (startPool 'a') ∧ HexHashes reuseEnv ∧
    let c := (startPool 'a').run reuseEnv overlapping
    c.wait () 2 = .waiting (keyOf '2') ∧
    (c.workers ()).acceptSignChan = some ⟨⟨keyOf '1', 1⟩, 2⟩ ∧
    (c.workers ()).sid = keyOf '2' ∧ (c.workers ()).ThresHold = 2 ∧
    (c.workers ()).msgacceptsignres = [['2']] ∧ (c.workers ()).ApprovReplys = [] ∧
    (c.step reuseEnv (.token () 2)).wait () 2 = .past :=
  ⟨startPool_fresh 'a', reuseEnv_hex, by decide +kernel, by decide +kernel, by decide +kernel,
    by decide +kernel, by decide +kernel, by decide +kernel, by decide +kernel⟩

end

end ThresholdDsa.Smpc.WorkerPool
