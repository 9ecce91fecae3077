/-
# A PreSign request that is answered with success

The end of the handler of a PreSign request as a program on the pre-sign
database: the data are put at the index of the request, with force, and taken out
again if the nodes do not agree that all have them.  Several requests run at
once, one database operation at a time, and any operation may fail.

A forced put goes over an entry that is there, and hides its own failure.
`success_stored`: after an answer of success the data are in the database, and no
entry is ever replaced, in the runs in which a handler begins only while its index
is vacant and no other handler for it is under way, and a put does not fail that
hides its failure.  `success_not_stored`: without either, they are not.
-/
import ThresholdDsa.Smpc.PreSignRequest

namespace ThresholdDsa.Smpc.PreSignRequest

open DbThreads GoText ChildKey Function Option

/-! ## The handler -/

/-- A request at a node, with what the rounds return, if they end well, and whether the nodes agree
afterwards (`SynchronizePreSignData`, or true if they need not). -/
structure Handling where
  ps : PreSign
  rounds : Option Drawn
  agree : Bool

variable {K : Type} (S : PreSignStore K)

/-- After `PutPreSignData`. -/
def Handling.afterPut (h : Handling) : Bool → Prog K PreSignData Bool
  | false => .ret false
  | true =>
    if h.agree then .ret true
    else (DeletePreSignData S (placeOf h.ps) h.ps.Nonce).bind fun _ => .ret false

/-- The handler from the rounds on; the answer is whether it was a success. -/
def Handling.prog (h : Handling) : Prog K PreSignData Bool :=
  match h.rounds with
  | none => .ret false
  | some d =>
    if h.ps.Index < 0 then .ret false
    else (PutPreSignData S (placeOf h.ps) h.ps.Index.toNat (preOf h.ps d) true).bind (h.afterPut S)

/-- Where the data of a request go, and the data. -/
def Handling.entry (h : Handling) : Option (K × PreSignData) := do
  let d ← h.rounds
  if h.ps.Index < 0 then none
  else (GetPreSignKey S (placeOf h.ps) h.ps.Index.toNat).map fun key => (key, preOf h.ps d)

/-! ## Runs -/

variable {ι : Type}

abbrev Handlers (ι K : Type) := Config ι K PreSignData Bool

def Handlers.initial (db : K → Option PreSignData) (handlings : ι → Handling) : Handlers ι K :=
  ⟨db, fun i => ⟨(handlings i).prog S, none, [], []⟩⟩

/-- A handler that has begun and not answered. -/
def underWay : Prog K PreSignData Bool → Bool
  | .ret _ => false
  | .absent _ _ => false
  | _ => true

/-- A handler begins only while its index is vacant and no other handler for it is under way; and a
forced put does not fail. -/
structure CarefulStep (handlings : ι → Handling) (c : Handlers ι K) (i : ι) (fails : Bool) : Prop where
  vacant : ∀ key next, (c.threads i).prog = .absent key next → c.db key = none
  alone : ∀ key next, (c.threads i).prog = .absent key next → ∀ j ≠ i,
    (∃ pre, (handlings j).entry S = some (key, pre)) → underWay (c.threads j).prog = false
  stores : ∀ key pre, (c.threads i).prog = .put key pre (fun _ => (handlings i).afterPut S true) →
    fails = false

section

variable [DecidableEq K] [DecidableEq ι]

inductive CarefulHandlers (handlings : ι → Handling) (start : Handlers ι K) : Handlers ι K → Prop
  | start : CarefulHandlers handlings start start
  | step {c : Handlers ι K} (run : CarefulHandlers handlings start c) (i : ι) (fails : Bool)
      (careful : CarefulStep S handlings c i fails) :
      CarefulHandlers handlings start (c.step i fails)

end

/-- The nonces of the requests differ, also up to letter case. -/
def DistinctNonces (handlings : ι → Handling) : Prop :=
  ∀ i j, i ≠ j → S.folding.EqualFold (handlings i).ps.Nonce (handlings j).ps.Nonce = false

/-! ## One handler -/

section

variable (h : Handling)

/-- Once the entry has been looked for: a put that reports its failure, or one that hides it. -/
def Handling.putting (key : K) (pre : PreSignData) : Bool → Prog K PreSignData Bool
  | true => .put key pre (h.afterPut S)
  | false => .put key pre fun _ => h.afterPut S true

theorem prog_cases : h.prog S = .ret false ∨
    ∃ key pre, h.entry S = some (key, pre) ∧ h.prog S = .absent key (h.putting S key pre) := by
  unfold Handling.prog Handling.entry
  cases rounds : h.rounds with
  | none => exact .inl rfl
  | some d =>
    by_cases negative : h.ps.Index < 0
    · exact .inl (if_pos negative)
    simp only [if_neg negative]
    cases key_eq : GetPreSignKey S (placeOf h.ps) h.ps.Index.toNat with
    | none =>
      refine .inl ?_
      rw [PutPreSignData, key_eq]
      rfl
    | some key =>
      refine .inr ⟨key, preOf h.ps d, ?_, ?_⟩
      · simp
      · rw [PutPreSignData, key_eq]
        show Prog.absent key _ = _
        congr 1
        funext missing
        cases missing <;> rfl

theorem entry_key {key : K} {pre : PreSignData} (entry : h.entry S = some (key, pre)) :
    pre.Key = h.ps.Nonce := by
  unfold Handling.entry at entry
  obtain ⟨d, -, at_index⟩ := bind_eq_some_iff.mp entry
  split at at_index
  · cases at_index
  · obtain ⟨key', -, same⟩ := map_eq_some_iff.mp at_index
    cases same
    rfl

/-- The test of the search in `DeletePreSignData`. -/
def Handling.own (psd : PreSignData) : Bool := S.folding.EqualFold psd.Key h.ps.Nonce

/-- What follows that search. -/
def Handling.found : Option (ℕ × PreSignData) → Prog K PreSignData Bool
  | none => .ret false
  | some (index, _) =>
    match GetPreSignKey S (placeOf h.ps) index with
    | none => .ret false
    | some key => .del key fun _ => .ret false

/-- The search from a list of indices on. -/
def Handling.search (indexs : List ℕ) : Prog K PreSignData Bool :=
  (Prog.scan (probe S (h.own S) (placeOf h.ps)) indexs).bind (h.found S)

theorem delete_cases :
    ((DeletePreSignData S (placeOf h.ps) h.ps.Nonce).bind fun _ => .ret false) = .ret false ∨
      ∃ indexs, ((DeletePreSignData S (placeOf h.ps) h.ps.Nonce).bind fun _ => .ret false) =
        h.search S indexs := by
  unfold DeletePreSignData
  split
  · exact .inl rfl
  refine .inr ⟨List.range' 0 (S.PrePubDataCount - 1 + 1 - 0), ?_⟩
  rw [BinarySearchPreSignData, Prog.halving_eq_scan _ le_rfl, Prog.bind_assoc, Handling.search]
  congr 1
  funext hit
  cases hit with
  | none => rfl
  | some hit =>
    obtain ⟨index, data⟩ := hit
    simp only [Handling.found]
    cases GetPreSignKey S (placeOf h.ps) index <;> rfl

theorem search_cases (indexs : List ℕ) : h.search S indexs = .ret false ∨
    ∃ key rest, h.search S indexs =
      .find key (h.own S) (fun _ => .del key fun _ => .ret false) (h.search S rest) := by
  induction indexs with
  | nil => exact .inl rfl
  | cons index rest ih =>
    cases key_eq : GetPreSignKey S (placeOf h.ps) index with
    | none =>
      have skipped : h.search S (index :: rest) = h.search S rest := by
        rw [Handling.search, Prog.scan, Prog.bind_assoc, probe, key_eq]
        rfl
      rw [skipped]
      exact ih
    | some key =>
      refine .inr ⟨key, rest, ?_⟩
      rw [Handling.search, Prog.scan, Prog.bind_assoc, probe, key_eq]
      show Prog.find key (h.own S) _ _ = _
      congr 1
      funext psd
      show h.found S (some (index, psd)) = _
      simp only [Handling.found, key_eq]

end

/-- The points of a handler, with what the database holds there. -/
inductive Point (h : Handling) (db : K → Option PreSignData) : Prog K PreSignData Bool → Prop
  | begin {key : K} {pre : PreSignData} (entry : h.entry S = some (key, pre)) :
      Point h db (.absent key (h.putting S key pre))
  | putting {key : K} {pre : PreSignData} (entry : h.entry S = some (key, pre))
      (vacant : db key = none) (missing : Bool) : Point h db (h.putting S key pre missing)
  | searching (indexs : List ℕ) : Point h db (h.search S indexs)
  | deleting {key : K} {psd : PreSignData} (there : db key = some psd) (own : h.own S psd = true) :
      Point h db (.del key fun _ => .ret false)
  | success {key : K} {pre : PreSignData} (entry : h.entry S = some (key, pre))
      (stored : db key = some pre) : Point h db (.ret true)
  | failed : Point h db (.ret false)

/-- What one step of a handler does to the database. -/
inductive Change [DecidableEq K] (h : Handling) (db : K → Option PreSignData) :
    (K → Option PreSignData) → Prop
  | same : Change h db db
  | stored {key : K} {pre : PreSignData} (entry : h.entry S = some (key, pre))
      (vacant : db key = none) : Change h db (update db key (some pre))
  | removed {key : K} {psd : PreSignData} (there : db key = some psd) (own : h.own S psd = true) :
      Change h db (update db key none)

section

variable {S} {h : Handling} {db : K → Option PreSignData} {key : K} {db' : K → Option PreSignData}

theorem Point.afterPut {pre : PreSignData} (entry : h.entry S = some (key, pre))
    (stored : db key = some pre) : Point S h db (h.afterPut S true) := by
  simp only [Handling.afterPut]
  split
  · exact .success entry stored
  · rcases delete_cases S h with at_once | ⟨indexs, searches⟩
    · rw [at_once]
      exact .failed
    · rw [searches]
      exact .searching indexs

theorem Point.initial : Point S h db (h.prog S) := by
  rcases prog_cases S h with ended | ⟨key, pre, entry, prog⟩
  · rw [ended]
    exact .failed
  · rw [prog]
    exact .begin entry

variable [DecidableEq K]

/-- A step of a handler, which begins at a vacant index and hides no failure. -/
theorem Point.step {th : Thread K PreSignData Bool} (point : Point S h db th.prog) {fails : Bool}
    (vacant : ∀ key next, th.prog = .absent key next → db key = none)
    (stores : ∀ key pre, th.prog = .put key pre (fun _ => h.afterPut S true) → fails = false) :
    Point S h (th.step db fails).1 (th.step db fails).2.prog ∧
      Change S h db (th.step db fails).1 := by
  obtain ⟨prog, held, taken, puts⟩ := th
  simp only at point vacant stores
  cases point with
  | begin entry =>
    exact ⟨.putting entry (vacant _ _ rfl) _, .same⟩
  | @putting key pre entry free missing =>
    have put : ∀ next : Bool → Prog K PreSignData Bool, next true = h.afterPut S true →
        Point S h (update db key (some pre)) (next true) ∧
          Change S h db (update db key (some pre)) := by
      intro next after
      rw [after]
      exact ⟨.afterPut entry (update_self _ _ _), .stored entry free⟩
    cases missing with
    | true =>
      cases fails with
      | true => exact ⟨.failed, .same⟩
      | false => exact put _ rfl
    | false =>
      have succeeds := stores key pre rfl
      rw [succeeds]
      exact put _ rfl
  | searching indexs =>
    rcases search_cases S h indexs with ended | ⟨key, rest, searches⟩
    · rw [ended]
      exact ⟨.failed, .same⟩
    rw [searches]
    simp only [Thread.step]
    split
    · rename_i psd hit
      refine ⟨?_, .same⟩
      split at hit
      · cases hit
      · obtain ⟨there, own⟩ := filter_eq_some_iff.mp hit
        exact .deleting there own
    · exact ⟨.searching rest, .same⟩
  | deleting there own =>
    cases fails with
    | true => exact ⟨.failed, .same⟩
    | false => exact ⟨.failed, .removed there own⟩
  | success entry stored => exact ⟨.success entry stored, .same⟩
  | failed => exact ⟨.failed, .same⟩

/-- An entry is kept or removed, never replaced. -/
theorem Change.kept (change : Change S h db db') {psd : PreSignData} (there : db key = some psd) :
    db' key = some psd ∨ db' key = none := by
  cases change with
  | same => exact .inl there
  | @stored key' pre entry vacant =>
    have other : key ≠ key' := by
      rintro rfl
      rw [there] at vacant
      cases vacant
    exact .inl ((update_of_ne other _ _).trans there)
  | @removed key' =>
    by_cases same : key = key'
    · rw [same]
      exact .inr (update_self _ _ _)
    · exact .inl ((update_of_ne same _ _).trans there)

/-- An entry that is not the handler's own stays. -/
theorem Change.stays (change : Change S h db db') {psd : PreSignData} (there : db key = some psd)
    (foreign : h.own S psd = false) :
    db' key = some psd := by
  cases change with
  | same => exact there
  | @stored key' pre entry vacant =>
    have other : key ≠ key' := by
      rintro rfl
      rw [there] at vacant
      cases vacant
    exact (update_of_ne other _ _).trans there
  | @removed key' psd' there' own =>
    have other : key ≠ key' := by
      rintro rfl
      rw [there] at there'
      cases there'
      rw [own] at foreign
      cases foreign
    exact (update_of_ne other _ _).trans there

/-- A point survives the step of another handler. -/
theorem Point.other {h' : Handling} {prog : Prog K PreSignData Bool} (point : Point S h db prog)
    (change : Change S h' db db') (distinct : S.folding.EqualFold h.ps.Nonce h'.ps.Nonce = false)
    (apart : underWay prog = true → ∀ key pre pre', h.entry S = some (key, pre) →
      h'.entry S = some (key, pre') → db' = db) : Point S h db' prog := by
  have foreign : ∀ psd, h.own S psd = true → h'.own S psd = false := by
    intro psd own
    rw [Bool.eq_false_iff]
    intro own'
    have equal := Folding.equalFold_trans (Folding.equalFold_symm own) own'
    rw [distinct] at equal
    cases equal
  cases point with
  | begin entry => exact .begin entry
  | @putting key pre entry vacant missing =>
    refine .putting entry ?_ missing
    cases change with
    | same => exact vacant
    | @stored key' pre' entry' =>
      by_cases same : key = key'
      · subst same
        have way : underWay (h.putting S key pre missing) = true := by cases missing <;> rfl
        rw [apart way key pre pre' entry entry']
        exact vacant
      · exact (update_of_ne same _ _).trans vacant
    | @removed key' =>
      by_cases same : key = key'
      · rw [same]
        exact update_self _ _ _
      · exact (update_of_ne same _ _).trans vacant
  | searching indexs => exact .searching indexs
  | deleting there own => exact .deleting (change.stays there (foreign _ own)) own
  | @success key pre entry stored =>
    refine .success entry (change.stays stored (foreign _ ?_))
    rw [Handling.own, entry_key S h entry]
    exact Folding.equalFold_iff.mpr rfl
  | failed => exact .failed

/-- A handler that is not under way only reads. -/
theorem step_of_not_underWay {th : Thread K PreSignData Bool} {fails : Bool}
    (rests : underWay th.prog = false) : (th.step db fails).1 = db := by
  obtain ⟨prog, held, taken, puts⟩ := th
  cases prog with
  | ret a => rfl
  | absent => rfl
  | find => cases rests
  | put => cases rests
  | del => cases rests

end

/-! ## All handlers -/

section

variable {S} [DecidableEq K] [DecidableEq ι] {handlings : ι → Handling} {c : Handlers ι K}
  {start : K → Option PreSignData}

variable (S) in
/-- Every handler is at a point of its own, and for one index at most one is under way. -/
structure Kept (handlings : ι → Handling) (c : Handlers ι K) : Prop where
  points : ∀ i, Point S (handlings i) c.db (c.threads i).prog
  exclusive : ∀ i j, i ≠ j → ∀ key pre pre', (handlings i).entry S = some (key, pre) →
    (handlings j).entry S = some (key, pre') → underWay (c.threads i).prog = true →
    underWay (c.threads j).prog = false

omit [DecidableEq K] [DecidableEq ι] in
theorem kept_initial : Kept S handlings (Handlers.initial S start handlings) where
  points _ := .initial
  exclusive i _ _ _ _ _ _ _ way := by
    have rests : underWay ((handlings i).prog S) = false := by
      rcases prog_cases S (handlings i) with ended | ⟨key, pre, -, prog⟩
      · rw [ended]
        rfl
      · rw [prog]
        rfl
    exact absurd way (by simp [Handlers.initial, rests])

omit [DecidableEq ι] in
/-- Only a handler that begins gets under way. -/
theorem begins_of_underWay (kept : Kept S handlings c) {i : ι} {fails : Bool}
    (rests : underWay (c.threads i).prog = false)
    (way : underWay ((c.threads i).step c.db fails).2.prog = true) :
    ∃ key pre, (handlings i).entry S = some (key, pre) ∧
      (c.threads i).prog = .absent key ((handlings i).putting S key pre) := by
  have point := kept.points i
  revert rests way point
  obtain ⟨prog, held, taken, puts⟩ := c.threads i
  intro rests way point
  simp only at rests point
  cases prog with
  | ret a => cases way
  | find => cases rests
  | put => cases rests
  | del => cases rests
  | absent key next =>
    generalize at_absent : Prog.absent key next = prog at point
    cases point with
    | @begin key' pre entry =>
      cases at_absent
      exact ⟨key, pre, entry, rfl⟩
    | putting entry vacant missing => cases missing <;> cases at_absent
    | searching indexs =>
      rcases search_cases S (handlings i) indexs with ended | ⟨key', rest, searches⟩
      · rw [ended] at at_absent
        cases at_absent
      · rw [searches] at at_absent
        cases at_absent
    | deleting => cases at_absent
    | success => cases at_absent
    | failed => cases at_absent

theorem Kept.step (kept : Kept S handlings c) (distinct : DistinctNonces S handlings) {i : ι}
    {fails : Bool} (careful : CarefulStep S handlings c i fails) :
    Kept S handlings (c.step i fails) ∧ Change S (handlings i) c.db (c.step i fails).db := by
  obtain ⟨point, change⟩ := (kept.points i).step careful.vacant (careful.stores)
  have turn := c.step_self i fails
  have others : ∀ j ≠ i, (c.step i fails).threads j = c.threads j :=
    fun j other => update_of_ne other _ _
  refine ⟨⟨fun j => ?_, fun j k apart key pre pre' entry entry' way => ?_⟩, change⟩
  · by_cases same : j = i
    · rw [same, turn]
      exact point
    · rw [others j same]
      refine (kept.points j).other change (distinct j i same) fun way key pre pre' entry entry' => ?_
      exact step_of_not_underWay (kept.exclusive j i same key pre pre' entry entry' way)
  · -- two handlers of one index: the one whose turn it is may just have begun
    by_cases first : j = i
    · subst first
      rw [others k apart.symm]
      rw [turn] at way
      cases rests : underWay (c.threads j).prog with
      | true => exact kept.exclusive j k apart key pre pre' entry entry' rests
      | false =>
        obtain ⟨key₀, pre₀, entry₀, begins⟩ := begins_of_underWay kept rests way
        cases entry.symm.trans entry₀
        exact careful.alone key _ begins k apart.symm ⟨pre', entry'⟩
    · rw [others j first] at way
      by_cases second : k = i
      · subst second
        rw [turn, Bool.eq_false_iff]
        intro way'
        cases rests : underWay (c.threads k).prog with
        | true =>
          have := kept.exclusive j k apart key pre pre' entry entry' way
          rw [rests] at this
          cases this
        | false =>
          obtain ⟨key₀, pre₀, entry₀, begins⟩ := begins_of_underWay kept rests way'
          cases entry'.symm.trans entry₀
          have := careful.alone key _ begins j first ⟨pre, entry⟩
          rw [this] at way
          cases way
      · rw [others k second]
        exact kept.exclusive j k apart key pre pre' entry entry' way

theorem kept_of_run (distinct : DistinctNonces S handlings)
    (run : CarefulHandlers S handlings (Handlers.initial S start handlings) c) :
    Kept S handlings c := by
  induction run with
  | start => exact kept_initial
  | step _ i fails careful ih => exact (ih.step distinct careful).1

omit [DecidableEq K] [DecidableEq ι] in
theorem stored_of_success (kept : Kept S handlings c) {i : ι}
    (success : (c.threads i).prog = .ret true) :
    ∃ key pre, (handlings i).entry S = some (key, pre) ∧ c.db key = some pre ∧
      pre.Key = (handlings i).ps.Nonce := by
  have point := kept.points i
  rw [success] at point
  generalize at_end : Prog.ret true = prog at point
  cases point with
  | begin entry => cases at_end
  | putting entry vacant missing => cases missing <;> cases at_end
  | searching indexs =>
    rcases search_cases S (handlings i) indexs with ended | ⟨key', rest, searches⟩
    · rw [ended] at at_end
      cases at_end
    · rw [searches] at at_end
      cases at_end
  | deleting => cases at_end
  | @success key pre entry stored => exact ⟨key, pre, entry, stored, entry_key S _ entry⟩
  | failed => cases at_end

end

/-- In every careful run: where a handler has answered with success, the database holds at the index
of its request the data with its nonce; and no step replaces an entry. -/
theorem success_stored {K ι : Type} [DecidableEq K] [DecidableEq ι] (S : PreSignStore K)
    (handlings : ι → Handling) (distinct : DistinctNonces S handlings)
    (start : K → Option PreSignData) (c : Handlers ι K)
    (run : CarefulHandlers S handlings (Handlers.initial S start handlings) c) :
    (∀ i, (c.threads i).prog = .ret true →
      ∃ key pre, (handlings i).entry S = some (key, pre) ∧ c.db key = some pre ∧
        pre.Key = (handlings i).ps.Nonce) ∧
    (∀ i fails, CarefulStep S handlings c i fails → ∀ key psd, c.db key = some psd →
      (c.step i fails).db key = some psd ∨ (c.step i fails).db key = none) := by
  have kept := kept_of_run distinct run
  refine ⟨fun i success => stored_of_success kept success, fun i fails careful key psd there => ?_⟩
  exact (kept.step distinct careful).2.kept there

/-! ## Two requests -/

namespace TwoRequests

def handling (nonce : Char) (index : ℤ) : Handling where
  ps := ⟨['p'], [], ['g'], [nonce], index⟩
  rounds := some ⟨7, 1, 1, 1⟩
  agree := true

/-- One request for index 0 and another. -/
def handlings (second : ℤ) : Bool → Handling
  | false => handling 'a' 0
  | true => handling 'b' second

def entryKey (index : Char) : List Char := ['p', ':', 'g', ':', index]

/-- The entry at index 0 is that of an earlier request. -/
def earlier (key : List Char) : Option PreSignData :=
  if key = entryKey '0' then some ⟨['c'], 7, 1, 1, 1, ['g'], false, 0⟩ else none

def after (second : ℤ) (db : List Char → Option PreSignData) (schedule : List (Bool × Bool)) :
    Handlers Bool (List Char) :=
  (Handlers.initial smallStore db (handlings second)).steps schedule

theorem handlings_distinct (second : ℤ) : DistinctNonces smallStore (handlings second) := by
  intro i j apart
  cases i <;> cases j
  · exact absurd rfl apart
  · show lowerFolding.EqualFold ['a'] ['b'] = false
    decide
  · show lowerFolding.EqualFold ['b'] ['a'] = false
    decide
  · exact absurd rfl apart

/-- Both for index 0, one after the other. -/
def clash : Handlers Bool (List Char) :=
  after 0 (fun _ => none) [(false, false), (false, false), (true, false), (true, false)]

/-- The first alone, over an earlier entry; its put fails. -/
def hidden : Handlers Bool (List Char) := after 0 earlier [(false, false), (false, true)]

/-- For different indices, in turns. -/
def turns : Handlers Bool (List Char) :=
  after 1 (fun _ => none) [(false, false), (true, false), (false, false), (true, false)]

/-- Of two requests for one index both are answered with success, and only the data of the second
are there; and a request over an earlier entry is answered with success though the put failed. -/
theorem success_not_stored :
    ((handlings 0 false).entry smallStore).map Prod.fst = some (entryKey '0') ∧
    ((after 0 (fun _ => none) [(false, false), (false, false)]).db (entryKey '0')).map
      PreSignData.Key = some ['a'] ∧
    (clash.threads false).prog = .ret true ∧ (clash.threads true).prog = .ret true ∧
    (clash.db (entryKey '0')).map PreSignData.Key = some ['b'] ∧
    (hidden.threads false).prog = .ret true ∧
    (hidden.db (entryKey '0')).map PreSignData.Key = some ['c'] := by
  refine ⟨by decide +kernel, by decide +kernel, rfl, rfl, by decide +kernel, rfl, by decide +kernel⟩

theorem turns_careful : CarefulHandlers smallStore (handlings 1)
    (Handlers.initial smallStore (fun _ => none) (handlings 1)) turns := by
  have begins : ∀ (c : Handlers Bool (List Char)) i key₀ next₀,
      (c.threads i).prog = .absent key₀ next₀ → c.db key₀ = none →
      (∀ j ≠ i, ((handlings 1 j).entry smallStore).map Prod.fst ≠ some key₀) →
      CarefulStep smallStore (handlings 1) c i false := by
    intro c i key₀ next₀ at_begin vacant apart
    refine ⟨fun key next here => ?_, fun key next here j other ⟨pre, entry⟩ => ?_,
      fun _ _ _ => rfl⟩
    · cases at_begin.symm.trans here
      exact vacant
    · cases at_begin.symm.trans here
      exact absurd (by rw [entry]; rfl) (apart j other)
  have puts : ∀ (c : Handlers Bool (List Char)) i key₀ pre next₀,
      (c.threads i).prog = .put key₀ pre next₀ → CarefulStep smallStore (handlings 1) c i false := by
    intro c i key₀ pre next₀ at_put
    refine ⟨fun key next here => ?_, fun key next here => ?_, fun _ _ _ => rfl⟩
    · cases at_put.symm.trans here
    · cases at_put.symm.trans here
  refine .step (.step (.step (.step .start false false ?_) true false ?_) false false ?_) true false ?_
  · refine begins _ _ (entryKey '0') _ rfl rfl fun j other => ?_
    cases j
    · exact absurd rfl other
    · decide +kernel
  · refine begins _ _ (entryKey '1') _ rfl rfl fun j other => ?_
    cases j
    · decide +kernel
    · exact absurd rfl other
  · exact puts _ _ _ _ _ rfl
  · exact puts _ _ _ _ _ rfl

theorem success_stored_turns :
    CarefulHandlers smallStore (handlings 1)
      (Handlers.initial smallStore (fun _ => none) (handlings 1)) turns ∧
    ∀ i, (turns.threads i).prog = .ret true ∧
      ∃ key pre, (handlings 1 i).entry smallStore = some (key, pre) ∧ turns.db key = some pre ∧
        pre.Key = (handlings 1 i).ps.Nonce := by
  refine ⟨turns_careful, fun i => ?_⟩
  have answered : (turns.threads i).prog = .ret true := by
    cases i
    · rfl
    · rfl
  exact ⟨answered, (success_stored smallStore (handlings 1) (handlings_distinct 1) (fun _ => none) turns
    turns_careful).1 i answered⟩

end TwoRequests

end ThresholdDsa.Smpc.PreSignRequest
