/-
# Workers as places, commands as their tenants

The workers of the pool are places in the sense of `Recycling`.  The tenant of a
worker is its command from the assignment of the threshold to the start of
`Clear`; visitors are the approvals that have found the worker, the `DisAcceptMsg`
of the command itself and the waits; left in a worker are the token, the counted
transactions and the recorded replies.

`Acts` is what a step of an approval can do.  `Kept` is the invariant of the pool:
tenants and visitors agree (`Site.Hosted`), and each worker fits the phase of its
loop (`Seat`).  `Kept.keep` covers the steps that change no tenant, `Kept.turn`
those of a worker on which nobody else is at work.
-/
import ThresholdDsa.Lib.Recycling
import ThresholdDsa.Smpc.WorkerPool

namespace ThresholdDsa.Smpc.WorkerPool

set_option linter.unusedSectionVars false

open Outcome GoText Recycling Function List Option

variable {ι κ : Type}

/-! ## Workers as places -/

/-- For whom the token in the channel, the counted transactions and the recorded replies are. -/
def Worker.left (w : Worker) : List Tag :=
  (w.acceptSignChan.map (·.tag)).toList ++ (w.counted ++ w.replied)

def Approving.count : Approving → Option ℕ
  | .full n | .approved n | .half n => some n
  | _ => none

def Collecting.WorkID : Collecting ι → Option ι
  | .counted id | .full id _ | .complete id _ | .half id _ => some id
  | _ => none

def Collecting.count : Collecting ι → Option ℕ
  | .full _ n | .complete _ n | .half _ n => some n
  | _ => none

/-- An approval at work on a worker: the worker to which it will send the second token and the
length of the list, once it knows them. -/
structure Standing (ι : Type) where
  v : Visitor ι
  WorkID : Option ι
  count : Option ℕ

def Stage.standing : Stage ι → Option (Standing ι)
  | .approving v r p => some ⟨v, some r.WorkID, p.count⟩
  | .collecting v p => some ⟨v, p.WorkID, p.count⟩
  | _ => none

def Phase.standing (i : ι) : Phase ι → Option (Standing ι)
  | .collect _ tag p => some ⟨⟨i, tag⟩, p.WorkID, p.count⟩
  | _ => none

/-- The approvals from outside and the workers' own. -/
def Pool.standing (c : Pool ι κ) : κ ⊕ ι → Option (Standing ι)
  | .inl k => (c.calls k).stage.standing
  | .inr i => (c.phase i).standing i

/-- The command of a worker that has its threshold. -/
def Phase.tenant? : Phase ι → Option Job
  | .ready J | .collect J _ _ | .lookup J | .await J | .signing J => some J
  | .ended J => J
  | _ => none

/-- The command whose key the worker has. -/
def Phase.named? : Phase ι → Option Job
  | .named J => some J
  | phase => phase.tenant?

/-- The command whose record names the worker. -/
def Phase.recorded? : Phase ι → Option Job
  | .saved J => some J
  | phase => phase.named?

/-- The command in work. -/
def Phase.job? : Phase ι → Option Job
  | .checked J => some J
  | phase => phase.recorded?

/-- Whether the list, the channel and the replies may hold something. -/
def Phase.used : Phase ι → Bool × Bool × Bool
  | .clear .approved | .clear .thresHold | .clear .msgacceptsignres => (true, true, true)
  | .clear .bacceptsignres | .clear .acceptSignChan => (false, true, true)
  | .clear .approvReplys => (false, false, true)
  | phase => (phase.tenant?.isSome, phase.tenant?.isSome, phase.tenant?.isSome)

/-- What the invariants read of a phase. -/
def Phase.view (phase : Phase ι) : Option Job × Option Job × Option Job × Bool × Bool × Bool :=
  (phase.recorded?, phase.named?, phase.tenant?, phase.used)

def Pool.site (c : Pool ι κ) : Site ι ((κ ⊕ ι) ⊕ (ι × ℕ)) Tag where
  tenant i := (c.phase i).tenant?.map fun J => ⟨J.key, (c.workers i).jobs⟩
  visit
    | .inl x => (c.standing x).map fun s => (s.v.w, s.v.tag)
    | .inr (i, n) =>
      match c.wait i n with
      | .waiting key => some (i, ⟨key, n⟩)
      | _ => none
  left i := (c.workers i).left

/-! ## What a step of an approval can do -/

section

variable {ι : Type} [DecidableEq ι] {E : Env} {db : Db} {raw : Text}

/-- The state of an approval after a step, if it goes on. -/
structure Follows (WorkID : Text → Option ι) (ws : ι → Worker) (s t : Standing ι) : Prop where
  visitor : t.v = s.v
  target : ∀ id, t.WorkID = some id → s.WorkID = some id ∨ WorkID s.v.tag.key = some id
  full : ∀ n, t.count = some n → s.count = some n ∨ (ws s.v.w).ThresHold ≤ n

/-- What an approval may do to the fields of its worker. -/
structure Adds (tag : Tag) (w w' : Worker) : Prop where
  sid : w'.sid = w.sid
  jobs : w'.jobs = w.jobs
  thresHold : w'.ThresHold = w.ThresHold
  chan : w'.acceptSignChan = w.acceptSignChan
  adds : ∀ x ∈ w'.counted ++ w'.replied, x ∈ w.counted ++ w.replied ∨ x = tag

inductive Acts (WorkID : Text → Option ι) (s : Standing ι) (ws : ι → Worker) :
    (ι → Worker) → Option (Standing ι) → Prop where
  | move (s' : Option (Standing ι)) (follows : ∀ t ∈ s', Follows WorkID ws s t) :
      Acts WorkID s ws ws s'
  | change (w' : Worker) (s' : Option (Standing ι)) (adds : Adds s.v.tag (ws s.v.w) w')
      (follows : ∀ t ∈ s', Follows WorkID ws s t) :
      Acts WorkID s ws (update ws s.v.w w') s'
  | send (id : ι) (n : ℕ) (target : s.WorkID = some id) (full : s.count = some n) :
      Acts WorkID s ws
        (update ws id { ws id with acceptSignChan := some ⟨s.v.tag, n⟩ }) none

variable {WorkID : Text → Option ι} {v : Visitor ι} {ws ws' : ι → Worker}

/-- An approval that learns neither a length nor a worker. -/
theorem Follows.same {s t : Standing ι} (visitor : t.v = s.v)
    (target : ∀ id, t.WorkID = some id → s.WorkID = some id)
    (count : ∀ n, t.count = some n → s.count = some n) : Follows WorkID ws s t :=
  ⟨visitor, fun id h => .inl (target id h), fun n h => .inl (count n h)⟩

theorem adds_pushBack (tag : Tag) (w : Worker) (raw : Text) : Adds tag w (w.PushBack raw tag) where
  sid := rfl
  jobs := rfl
  thresHold := rfl
  chan := rfl
  adds x mem := by
    simp only [Worker.PushBack, mem_append, mem_singleton] at mem ⊢
    tauto

theorem sendAccepted_eq {w : ι} (sent : sendAccepted ws w = some ws') :
    ws' = update ws w { ws w with bacceptsignres := true } := by
  unfold sendAccepted at sent
  split at sent
  · cases sent
  · exact (Option.some.inj sent).symm

theorem sendGoOn_eq {id : ι} {token : Token} (sent : sendGoOn ws id token = some ws') :
    ws' = update ws id { ws id with acceptSignChan := some token } := by
  unfold sendGoOn at sent
  split at sent
  · cases sent
  · exact (Option.some.inj sent).symm

theorem Approving.acts {r : Request ι} {p : Approving} {p' : Option Approving}
    (next : p.next E db raw v r ws = .ok (ws', p')) :
    Acts WorkID ⟨v, some r.WorkID, p.count⟩ ws ws'
      (p'.map fun p' => ⟨v, some r.WorkID, p'.count⟩) := by
  -- a call that goes on without having tested the length
  have goes {q : Option Approving} (uncounted : ∀ p' ∈ q, p'.count = none ∨ p'.count = p.count) :
      ∀ t ∈ q.map fun p' => (⟨v, some r.WorkID, p'.count⟩ : Standing ι),
        Follows WorkID ws ⟨v, some r.WorkID, p.count⟩ t := by
    intro t mem
    obtain ⟨p', p'_mem, rfl⟩ := mem_map.mp mem
    refine .same rfl (fun _ h => h) fun n counts => ?_
    rcases uncounted p' p'_mem with none_eq | same
    · exact absurd counts (by simp [none_eq])
    · exact same ▸ counts
  cases p with
  | found =>
    simp only [Approving.next] at next
    split at next
    · cases next
      exact .move _ (goes (by simp))
    · cases next
      refine .move _ (goes fun p' mem => ?_)
      obtain ⟨_, -, rfl⟩ := mem_map.mp mem
      exact .inl rfl
  | pending =>
    simp only [Approving.next] at next
    split at next
    · cases next
      exact .move _ (goes (by simp))
    · cases next
      exact .move _ (goes (by simp [Approving.count]))
  | unseen =>
    simp only [Approving.next] at next
    split at next
    · cases next
    · cases next
      refine .change _ _ ⟨rfl, rfl, rfl, rfl, fun _ => .inl⟩ (goes fun p' mem => ?_)
      split at mem
      · cases mem
        exact .inl rfl
      · cases mem
  | fresh =>
    cases next
    exact .change _ _ (adds_pushBack _ _ _) (goes (by simp [Approving.count]))
  | counted =>
    simp only [Approving.next, bind_eq_ok] at next
    obtain ⟨enode, -, rest⟩ := next
    split at rest
    · cases rest
      exact .move _ (goes (by simp))
    · cases rest
      exact .move _ (goes (by simp [Approving.count]))
  | indexed =>
    simp only [Approving.next, bind_eq_ok] at next
    obtain ⟨replys, -, rest⟩ := next
    cases rest
    refine .change _ _ ⟨rfl, rfl, rfl, rfl, fun x mem => ?_⟩ (goes (by simp [Approving.count]))
    simp only [mem_append, mem_singleton] at mem ⊢
    tauto
  | replied =>
    -- the length test
    cases next
    refine .move _ fun t mem => ?_
    split at mem
    · next long =>
      cases mem
      refine ⟨rfl, fun id h => .inl h, fun n counts => .inr ?_⟩
      cases counts
      exact long
    · cases mem
  | full count =>
    cases next
    exact .change _ _ ⟨rfl, rfl, rfl, rfl, fun _ => .inl⟩ (goes (by simp [Approving.count]))
  | approved count =>
    simp only [Approving.next] at next
    split at next
    · cases next
      exact .move _ (goes (by simp))
    · next sent =>
      cases next
      rw [sendAccepted_eq sent]
      exact .change _ _ ⟨rfl, rfl, rfl, rfl, fun _ => .inl⟩ (goes (by simp [Approving.count]))
  | half count =>
    simp only [Approving.next] at next
    split at next
    · cases next
      exact .move _ (goes (by simp))
    · next sent =>
      cases next
      rw [sendGoOn_eq sent]
      exact .send r.WorkID count rfl rfl

theorem Collecting.acts (E : Env) (db : Db) (raw : Text) (WorkID : Text → Option ι) (v : Visitor ι)
    (ws : ι → Worker) (p : Collecting ι) :
    Acts WorkID ⟨v, p.WorkID, p.count⟩ ws (p.next E db raw WorkID v ws).1
      ((p.next E db raw WorkID v ws).2.map fun p' => ⟨v, p'.WorkID, p'.count⟩) := by
  have goes {q : Option (Collecting ι)} (known : ∀ p' ∈ q,
      (p'.WorkID = none ∨ p'.WorkID = p.WorkID) ∧ (p'.count = none ∨ p'.count = p.count)) :
      ∀ t ∈ q.map fun p' => (⟨v, p'.WorkID, p'.count⟩ : Standing ι),
        Follows WorkID ws ⟨v, p.WorkID, p.count⟩ t := by
    intro t mem
    obtain ⟨p', p'_mem, rfl⟩ := mem_map.mp mem
    obtain ⟨id_known, count_known⟩ := known p' p'_mem
    refine .same rfl (fun id targets => ?_) fun n counts => ?_
    · rcases id_known with none_eq | same
      · exact absurd targets (by simp [none_eq])
      · exact same ▸ targets
    · rcases count_known with none_eq | same
      · exact absurd counts (by simp [none_eq])
      · exact same ▸ counts
  cases p with
  | found =>
    refine .move _ (goes fun p' mem => ?_)
    simp only [Collecting.next] at mem
    split at mem <;> cases mem
    exact ⟨.inl rfl, .inl rfl⟩
  | called =>
    refine .move _ (goes fun p' mem => ?_)
    simp only [Collecting.next] at mem
    split at mem <;> cases mem
    exact ⟨.inl rfl, .inl rfl⟩
  | unseen =>
    refine .change _ _ ⟨rfl, rfl, rfl, rfl, fun _ => .inl⟩ (goes fun p' mem => ?_)
    simp only [Collecting.next] at mem
    split at mem <;> cases mem
    exact ⟨.inl rfl, .inl rfl⟩
  | fresh =>
    simp only [Collecting.next]
    split
    · next id _ named =>
      refine .change _ _ (adds_pushBack _ _ _) fun t mem => ?_
      cases mem
      exact ⟨rfl, fun id' h => .inr (h ▸ named), fun n counts => by cases counts⟩
    · exact .move _ (goes (by simp))
  | counted id =>
    refine .move _ fun t mem => ?_
    simp only [Collecting.next] at mem
    split at mem
    · next long =>
      cases mem
      refine ⟨rfl, fun id h => .inl h, fun n counts => .inr ?_⟩
      cases counts
      exact long
    · cases mem
  | full =>
    refine .move _ (goes fun p' mem => ?_)
    simp only [Collecting.next] at mem
    split at mem <;> cases mem
    exact ⟨.inr rfl, .inr rfl⟩
  | complete id count =>
    simp only [Collecting.next]
    split
    · exact .move _ (goes (by simp))
    · next sent =>
      rw [sendAccepted_eq sent]
      exact .change _ _ ⟨rfl, rfl, rfl, rfl, fun _ => .inl⟩
        (goes (by simp [Collecting.count, Collecting.WorkID]))
  | half id count =>
    simp only [Collecting.next]
    split
    · exact .move _ (goes (by simp))
    · next sent =>
      rw [sendGoOn_eq sent]
      exact .send id count rfl rfl

theorem Follows.refl (s : Standing ι) : Follows WorkID ws s s :=
  .same rfl (fun _ h => h) fun _ h => h

end

/-! ## Invariants -/

section

variable [Fintype ι] [DecidableEq ι] [DecidableEq κ] (E : Env)

/-- The key of a job is that of its transaction. -/
structure Issued (J : Job) : Prop where
  decoded : E.decode J.raw = some J.tx
  data : J.tx.data = .sign J.sig
  key : signKey E J.tx.sender J.tx.Nonce J.sig = .ok J.key

/-- An approval sends to the worker in the record, and has seen as many transactions as the group
has nodes. -/
structure Sound (c : Pool ι κ) (s : Standing ι) : Prop where
  target : ∀ {id}, s.WorkID = some id → c.WorkID s.v.tag.key = some id
  full : ∀ {n J}, s.count = some n → (c.phase s.v.w).tenant? = some J → J.threshold E ≤ n

/-- A worker between two steps, in the phase of its loop. -/
structure Seat (WorkID : Text → Option ι) (i : ι) (phase : Phase ι) (w : Worker) : Prop where
  issued : ∀ {J}, phase.job? = some J → Issued E J
  recorded : ∀ {J}, phase.recorded? = some J → WorkID J.key = some i
  sid : w.sid = (phase.named?.map (·.key)).getD []
  need : ∀ {J}, phase.tenant? = some J → w.ThresHold = J.threshold E
  list : phase.used.1 = false → w.counted = []
  chan : phase.used.2.1 = false → w.acceptSignChan = none
  replys : phase.used.2.2 = false → w.replied = []
  token : ∀ {t J}, w.acceptSignChan = some t → phase.tenant? = some J → J.threshold E ≤ t.count

structure Kept (c : Pool ι κ) : Prop where
  hosted : c.site.Hosted
  seat : ∀ i, Seat E c.WorkID i (c.phase i) (c.workers i)
  hashed : ∀ {key i}, c.WorkID key = some i → ∃ t, key = E.Keccak256Hash t
  request : ∀ {k r}, (c.calls k).stage = .approve r → c.WorkID r.sig.Key = some r.WorkID
  asked : ∀ {k key}, (c.calls k).stage = .reply key → ∃ id, c.WorkID key = some id
  standing : ∀ {x s}, c.standing x = some s → Sound E c s

/-- What visitors may do to a worker. -/
structure Touched (c : Pool ι κ) (i : ι) (w : Worker) : Prop where
  tenant : (c.phase i).tenant?.isSome
  sid : w.sid = (c.workers i).sid
  jobs : w.jobs = (c.workers i).jobs
  thresHold : w.ThresHold = (c.workers i).ThresHold
  left : ∀ x ∈ w.left, x ∈ (c.workers i).left ∨ ∃ v, c.site.visit v = some (i, x)
  token : ∀ t, w.acceptSignChan = some t → (c.workers i).acceptSignChan = some t ∨
    ∀ J, (c.phase i).tenant? = some J → J.threshold E ≤ t.count

/-- An approval that has just found a worker. -/
structure Enters (c : Pool ι κ) (t : Standing ι) : Prop where
  tenant : c.site.tenant t.v.w = some t.v.tag
  target : ∀ id, t.WorkID = some id → c.WorkID t.v.tag.key = some id
  count : t.count = none

/-- A step that changes no tenant. -/
structure Keeps (c c' : Pool ι κ) : Prop where
  WorkID : c'.WorkID = c.WorkID
  view : ∀ i, (c'.phase i).view = (c.phase i).view
  jobs : ∀ i J, (c'.phase i).job? = some J → (c.phase i).job? = some J ∨ Issued E J
  waits : ∀ i n key, c'.wait i n = .waiting key →
    c.wait i n = .waiting key ∨ c.site.tenant i = some ⟨key, n⟩
  requests : ∀ k r, (c'.calls k).stage = .approve r →
    (c.calls k).stage = .approve r ∨ c.WorkID r.sig.Key = some r.WorkID
  asks : ∀ k key, (c'.calls k).stage = .reply key →
    (c.calls k).stage = .reply key ∨ ∃ id, c.WorkID key = some id
  standings : ∀ x t, c'.standing x = some t →
    (∃ s, c.standing x = some s ∧ Follows c.WorkID c.workers s t) ∨ Enters c t
  workers : ∀ i, c'.workers i = c.workers i ∨ Touched E c i (c'.workers i)

variable {E} {c c' : Pool ι κ}
  {i : ι} {phase : Phase ι} {x : κ ⊕ ι} {s : Standing ι} {t : Tag} {w : Worker}

theorem Phase.used_of_tenant (tenant : phase.tenant?.isSome) :
    phase.used = (true, true, true) := by
  cases phase <;> simp_all [Phase.tenant?, Phase.used]

theorem Phase.named_of_tenant {J : Job} (tenant : phase.tenant? = some J) :
    phase.named? = some J := by
  cases phase <;> simp_all [Phase.tenant?, Phase.named?]

theorem Phase.recorded_of_named {J : Job} (named : phase.named? = some J) :
    phase.recorded? = some J := by
  cases phase <;> simp_all [Phase.tenant?, Phase.named?, Phase.recorded?]

theorem site_tenant_eq : c.site.tenant i = some t ↔
    ∃ J, (c.phase i).tenant? = some J ∧ (⟨J.key, (c.workers i).jobs⟩ : Tag) = t :=
  map_eq_some_iff

theorem site_visit_standing (x : κ ⊕ ι) :
    c.site.visit (.inl x) = (c.standing x).map fun s => (s.v.w, s.v.tag) := rfl

theorem site_visit_wait {j : ι} {n : ℕ} :
    c.site.visit (.inr (i, n)) = some (j, t) ↔ i = j ∧ c.wait i n = .waiting t.key ∧ t.job = n := by
  show (match c.wait i n with
    | .waiting key => some (i, (⟨key, n⟩ : Tag))
    | _ => none) = _ ↔ _
  obtain ⟨key, job⟩ := t
  cases wait : c.wait i n <;> simp
  grind

namespace Keeps

variable (keeps : Keeps E c c')

include keeps

theorem recorded? (i : ι) : (c'.phase i).recorded? = (c.phase i).recorded? :=
  congrArg Prod.fst (keeps.view i)

theorem named? (i : ι) : (c'.phase i).named? = (c.phase i).named? :=
  congrArg (·.2.1) (keeps.view i)

theorem tenant? (i : ι) : (c'.phase i).tenant? = (c.phase i).tenant? :=
  congrArg (·.2.2.1) (keeps.view i)

theorem used (i : ι) : (c'.phase i).used = (c.phase i).used :=
  congrArg (·.2.2.2) (keeps.view i)

theorem worker_jobs (i : ι) : (c'.workers i).jobs = (c.workers i).jobs := by
  rcases keeps.workers i with same | touched
  · rw [same]
  · exact touched.jobs

theorem tenant (i : ι) : c'.site.tenant i = c.site.tenant i := by
  simp only [Pool.site, keeps.tenant? i, keeps.worker_jobs i]

/-- A worker that may not hold anything is not touched. -/
theorem worker_of_unused (unused : (c'.phase i).used ≠ (true, true, true)) :
    c'.workers i = c.workers i := by
  rcases keeps.workers i with same | touched
  · exact same
  · rw [keeps.used i] at unused
    exact absurd (Phase.used_of_tenant touched.tenant) unused

theorem site : c.site.Step c'.site where
  enters v i t visits := by
    rw [keeps.tenant i]
    cases v with
    | inl x =>
      rw [site_visit_standing, map_eq_some_iff] at visits
      obtain ⟨t', standing, place⟩ := visits
      cases place
      rcases keeps.standings x t' standing with ⟨s, before, follows⟩ | enters
      · left
        rw [site_visit_standing, before, map_some, follows.visitor]
      · exact .inr enters.tenant
    | inr wait =>
      obtain ⟨j, n⟩ := wait
      obtain ⟨rfl, waiting, rfl⟩ := site_visit_wait.mp visits
      rcases keeps.waits j _ t.key waiting with before | tenant
      · exact .inl (site_visit_wait.mpr ⟨rfl, before, rfl⟩)
      · exact .inr tenant
  stays v i t visits tenant := by rw [keeps.tenant i, tenant]
  leaves i x mem := by
    rcases keeps.workers i with same | touched
    · left
      show x ∈ (c.workers i).left
      rw [← same]
      exact mem
    · exact touched.left x mem
  lets i t tenant := .inl (by rw [← keeps.tenant i, tenant])

end Keeps

theorem Keeps.seat (keeps : Keeps E c c') (seat : Seat E c.WorkID i (c.phase i) (c.workers i)) :
    Seat E c'.WorkID i (c'.phase i) (c'.workers i) where
  issued {J} job := (keeps.jobs i J job).elim seat.issued id
  recorded {J} recorded := by
    rw [keeps.WorkID]
    exact seat.recorded (keeps.recorded? i ▸ recorded)
  sid := by
    rw [keeps.named? i, ← seat.sid]
    rcases keeps.workers i with same | touched
    · rw [same]
    · exact touched.sid
  need {J} tenant := by
    rw [← seat.need (keeps.tenant? i ▸ tenant)]
    rcases keeps.workers i with same | touched
    · rw [same]
    · exact touched.thresHold
  list unused := by
    rw [keeps.worker_of_unused fun used => by simp [used] at unused]
    exact seat.list (keeps.used i ▸ unused)
  chan unused := by
    rw [keeps.worker_of_unused fun used => by simp [used] at unused]
    exact seat.chan (keeps.used i ▸ unused)
  replys unused := by
    rw [keeps.worker_of_unused fun used => by simp [used] at unused]
    exact seat.replys (keeps.used i ▸ unused)
  token {t J} holds tenant := by
    rw [keeps.tenant? i] at tenant
    rcases keeps.workers i with same | touched
    · exact seat.token (same ▸ holds) tenant
    · exact (touched.token t holds).elim (fun before => seat.token before tenant)
        fun long => long J tenant

variable (kept : Kept E c)

include kept

theorem Kept.keep (keeps : Keeps E c c') : Kept E c' where
  hosted := kept.hosted.step keeps.site
  seat i := keeps.seat (kept.seat i)
  hashed {key i} recorded := kept.hashed (keeps.WorkID ▸ recorded)
  request {k r} stage := by
    rw [keeps.WorkID]
    exact (keeps.requests k r stage).elim kept.request id
  asked {k key} stage := by
    rw [keeps.WorkID]
    exact (keeps.asks k key stage).elim kept.asked id
  standing {x t} standing := by
    rcases keeps.standings x t standing with ⟨s, before, follows⟩ | enters
    · have sound := kept.standing before
      refine ⟨fun {id} targets => ?_, fun {n J} counts tenant => ?_⟩
      · rw [keeps.WorkID, follows.visitor]
        exact (follows.target id targets).elim sound.target fun h => h
      · rw [keeps.tenant? t.v.w, follows.visitor] at tenant
        rcases follows.full n counts with counted | long
        · exact sound.full counted tenant
        · rwa [(kept.seat _).need tenant] at long
    · refine ⟨fun {id} targets => ?_, fun {n J} counts => ?_⟩
      · rw [keeps.WorkID]
        exact enters.target id targets
      · simp [enters.count] at counts

/-- The worker of an approval is let to its command. -/
theorem Kept.tenant_of_standing (standing : c.standing x = some s) :
    ∃ J, (c.phase s.v.w).tenant? = some J ∧
      (⟨J.key, (c.workers s.v.w).jobs⟩ : Tag) = s.v.tag := by
  have visits : c.site.visit (.inl x) = some (s.v.w, s.v.tag) := by
    rw [site_visit_standing, standing, map_some]
  exact site_tenant_eq.mp (kept.hosted.visitor visits)

/-- The record names the worker that the approval has found. -/
theorem Kept.target_eq (standing : c.standing x = some s) {id : ι}
    (target : s.WorkID = some id) : id = s.v.w := by
  obtain ⟨J, tenant, tag_eq⟩ := kept.tenant_of_standing standing
  have recorded := (kept.seat _).recorded (Phase.recorded_of_named (Phase.named_of_tenant tenant))
  have named := (kept.standing standing).target target
  rw [← tag_eq] at named
  exact Option.some.inj (named.symm.trans recorded)

theorem Kept.touched (standing : c.standing x = some s) {ws : ι → Worker}
    {s' : Option (Standing ι)} (acts : Acts c.WorkID s c.workers ws s') (i : ι) :
    ws i = c.workers i ∨ Touched E c i (ws i) := by
  obtain ⟨J, tenant, tag_eq⟩ := kept.tenant_of_standing standing
  have visits : c.site.visit (.inl x) = some (s.v.w, s.v.tag) := by
    rw [site_visit_standing, standing, map_some]
  cases acts with
  | move => exact .inl rfl
  | change w' _ adds =>
    by_cases here : i = s.v.w
    · subst here
      right
      rw [update_self]
      refine ⟨by simp [tenant], adds.sid, adds.jobs, adds.thresHold, fun y mem => ?_,
        fun t holds => .inl (adds.chan ▸ holds)⟩
      rw [Worker.left, adds.chan, mem_append] at mem
      rcases mem with token | added
      · exact .inl (mem_append_left _ token)
      · rcases adds.adds y added with old | rfl
        · exact .inl (mem_append_right _ old)
        · exact .inr ⟨_, visits⟩
    · exact .inl (update_of_ne here _ _)
  | send id n target full =>
    obtain rfl := kept.target_eq standing target
    by_cases here : i = s.v.w
    · subst here
      right
      rw [update_self]
      refine ⟨by simp [tenant], rfl, rfl, rfl, fun y mem => ?_, fun t holds => .inr ?_⟩
      · rw [Worker.left, mem_append] at mem
        rcases mem with token | old
        · obtain rfl : y = s.v.tag := by simpa using token
          exact .inr ⟨_, visits⟩
        · exact .inl (mem_append_right _ old)
      · cases holds
        exact fun J tenant => (kept.standing standing).full full tenant
    · exact .inl (update_of_ne here _ _)

theorem Kept.alone_of_vacant (vacant : (c.phase i).tenant? = none)
    (v : (κ ⊕ ι) ⊕ (ι × ℕ)) (t : Tag) : c.site.visit v ≠ some (i, t) := by
  intro visits
  obtain ⟨J, tenant, -⟩ := site_tenant_eq.mp (kept.hosted.visitor visits)
  simp [vacant] at tenant

omit kept

theorem standing_of_turn (quiet : phase.standing i = none)
    (standing : ((c.setPhase i phase).setWorker i w).standing x = some s) :
    c.standing x = some s := by
  rcases x with k | own
  · exact standing
  · by_cases here : own = i
    · subst here
      simp [Pool.standing, Pool.setWorker, Pool.setPhase, quiet] at standing
    · simpa [Pool.standing, Pool.setWorker, Pool.setPhase, here] using standing

theorem visit_of_turn (quiet : phase.standing i = none) {v : (κ ⊕ ι) ⊕ (ι × ℕ)} {j : ι}
    (visits : ((c.setPhase i phase).setWorker i w).site.visit v = some (j, t)) :
    c.site.visit v = some (j, t) := by
  rcases v with x | wait
  · rw [site_visit_standing, map_eq_some_iff] at visits
    obtain ⟨s, standing, place⟩ := visits
    rw [site_visit_standing, standing_of_turn quiet standing, map_some, place]
  · exact visits

/-- A step of a worker on which nobody else is at work. -/
theorem Kept.turn (kept : Kept E c) (alone : ∀ v t, c.site.visit v ≠ some (i, t))
    (quiet : phase.standing i = none) (seat : Seat E c.WorkID i phase w)
    (left : ∀ x ∈ w.left, x ∈ (c.workers i).left) (lets : ∀ J, phase.tenant? = some J → w.left = []) :
    Kept E ((c.setPhase i phase).setWorker i w) := by
  have phase_self : ((c.setPhase i phase).setWorker i w).phase i = phase := update_self ..
  have worker_self : ((c.setPhase i phase).setWorker i w).workers i = w := update_self ..
  have phase_ne {j : ι} (ne : j ≠ i) : ((c.setPhase i phase).setWorker i w).phase j = c.phase j :=
    update_of_ne ne ..
  have worker_ne {j : ι} (ne : j ≠ i) :
      ((c.setPhase i phase).setWorker i w).workers j = c.workers j := update_of_ne ne ..
  have tenant_ne {j : ι} (ne : j ≠ i) :
      ((c.setPhase i phase).setWorker i w).site.tenant j = c.site.tenant j := by
    simp only [Pool.site, phase_ne ne, worker_ne ne]
  have away {v : (κ ⊕ ι) ⊕ (ι × ℕ)} {j : ι} {t : Tag}
      (visits : ((c.setPhase i phase).setWorker i w).site.visit v = some (j, t)) :
      c.site.visit v = some (j, t) ∧ j ≠ i := by
    have before := visit_of_turn quiet visits
    refine ⟨before, ?_⟩
    rintro rfl
    exact alone v t before
  have step : c.site.Step ((c.setPhase i phase).setWorker i w).site := by
    refine ⟨fun v j t visits => .inl (away visits).1, fun v j t visits tenant => ?_,
      fun j x mem => .inl ?_, fun j t tenant => ?_⟩
    · rw [tenant_ne (away visits).2, tenant]
    · by_cases here : j = i
      · subst here
        have mem : x ∈ (((c.setPhase j phase).setWorker j w).workers j).left := mem
        rw [worker_self] at mem
        exact left x mem
      · have mem : x ∈ (((c.setPhase i phase).setWorker i w).workers j).left := mem
        rwa [worker_ne here] at mem
    · by_cases here : j = i
      · subst here
        obtain ⟨J, tenant, -⟩ := site_tenant_eq.mp tenant
        rw [phase_self] at tenant
        right
        show (((c.setPhase j phase).setWorker j w).workers j).left = []
        rw [worker_self]
        exact lets J tenant
      · left
        rw [← tenant_ne here, tenant]
  refine ⟨kept.hosted.step step, fun j => ?_, kept.hashed, kept.request, kept.asked,
    fun {x s} standing => ?_⟩
  · by_cases here : j = i
    · subst here
      rw [phase_self, worker_self]
      exact seat
    · rw [phase_ne here, worker_ne here]
      exact kept.seat j
  · have visits : ((c.setPhase i phase).setWorker i w).site.visit (.inl x) =
        some (s.v.w, s.v.tag) := by rw [site_visit_standing, standing, map_some]
    have elsewhere := (away visits).2
    have sound := kept.standing (standing_of_turn quiet standing)
    refine ⟨sound.target, fun {n J} counts tenant => ?_⟩
    rw [phase_ne elsewhere] at tenant
    exact sound.full counts tenant

end

end ThresholdDsa.Smpc.WorkerPool
