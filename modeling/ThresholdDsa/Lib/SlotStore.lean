/-
# Message lists filled by an index the sender chose

A node keeps, for each kind of message, an array with one slot for each party,
and for the kinds without an index a queue.  A message carries an id and the
index of the slot it asks for.  `storeSlot` and `storeQueue` drop a message whose
id is already in its list and otherwise place it; an index outside the array
panics.  `Rules.store` puts them together, `store_cases` says all that one call
can do, and the rest is derived from it:

* `tidy_run` -- whatever the messages, an entry is a received message of its
  list's kind, in the slot it asked for, and no id occurs twice in a list;
* `kept_run` -- if the messages ask for the slot of their id, an entry is never
  replaced;
* `stored_step` -- and then every message finds its slot free or taken by an
  earlier message of the same id;
* `run_panic` -- and then only the check of a message's content can panic.
-/
import ThresholdDsa.Lib.Outcome

namespace ThresholdDsa.SlotStore

open Outcome List

variable {M K I D : Type} {n : ℕ}

/-- Kind, id and index of a message; the kind `none` goes to the queue. -/
structure Labels (M K I : Type) where
  kind : M → Option K
  id : M → I
  index : M → ℤ

structure Store (M K : Type) (n : ℕ) where
  queue : List M
  slots : K → Fin n → Option M

/-- What a node keeps: the message lists, and data copied out of the messages. -/
structure Node (M K D : Type) (n : ℕ) where
  temp : Store M K n
  data : D

def Store.empty : Store M K n := ⟨[], fun _ _ => none⟩

/-- The messages in a list, without the empty slots. -/
def Store.entries (s : Store M K n) : Option K → List M
  | none => s.queue
  | some k => (List.finRange n).filterMap (s.slots k)

theorem Store.mem_entries_some {s : Store M K n} {k : K} {m : M} :
    m ∈ s.entries (some k) ↔ ∃ i, s.slots k i = some m := by
  simp [entries]

section

variable [DecidableEq K] [DecidableEq I] (L : Labels M K I)

def find (l : List M) (msg : M) : Bool :=
  l.any fun v => L.kind v = L.kind msg ∧ L.id v = L.id msg

def CheckFull (slots : Fin n → Option M) : Bool :=
  n ≠ 0 ∧ ∀ i, (slots i).isSome

def slotIndex (n : ℕ) (i : ℤ) : Outcome (Fin n) :=
  if inside : 0 ≤ i ∧ i < n then .ok ⟨i.toNat, by omega⟩ else .error .panic

def Store.put (s : Store M K n) (k : K) (i : Fin n) (msg : M) : Store M K n :=
  { s with slots := Function.update s.slots k (Function.update (s.slots k) i (some msg)) }

def storeQueue (p : Node M K D n) (msg : M) : Node M K D n × Bool :=
  if find L p.temp.queue msg then (p, false)
  else
    let queue := if p.temp.queue.length < n then p.temp.queue ++ [msg] else p.temp.queue
    ({ p with temp := { p.temp with queue } }, queue.length = n)

/-- `check` is the check of the message's content, `keep` the copying into the data. -/
def storeSlot (k : K) (check : Outcome Unit) (keep : Fin n → D → D) (p : Node M K D n) (msg : M) :
    Outcome (Node M K D n × Bool) :=
  if find L (p.temp.entries (some k)) msg then pure (p, false)
  else do
    check
    let index ← slotIndex n (L.index msg)
    let temp := p.temp.put k index msg
    pure (⟨temp, keep index p.data⟩, CheckFull (temp.slots k))

end

/-- How a node handles the messages of all kinds. -/
structure Rules (M K I D : Type) (n : ℕ) extends Labels M K I where
  check : M → Outcome Unit
  keep : M → Fin n → D → D

namespace Rules

variable [DecidableEq K] [DecidableEq I] (R : Rules M K I D n)

def store (p : Node M K D n) (msg : M) : Outcome (Node M K D n × Bool) :=
  match R.kind msg with
  | none => pure (storeQueue R.toLabels p msg)
  | some k => storeSlot R.toLabels k (R.check msg) (R.keep msg) p msg

def run (p : Node M K D n) (msgs : List M) : Outcome (Node M K D n) :=
  msgs.foldlM (fun p msg => do
    let (p, _) ← R.store p msg
    pure p) p

end Rules

/-! ## One call -/

variable {R : Rules M K I D n} {p p' : Node M K D n} {msg : M} {full : Bool}

section

variable [DecidableEq K] [DecidableEq I]

theorem find_eq_true_iff {l : List M} :
    find R.toLabels l msg = true ↔ ∃ v ∈ l, R.kind v = R.kind msg ∧ R.id v = R.id msg := by
  simp [find]

theorem slotIndex_eq_ok {i : ℤ} {index : Fin n} :
    slotIndex n i = .ok index ↔ i = (index.val : ℤ) := by
  unfold slotIndex
  constructor
  · intro found
    split at found
    · cases found
      simp only
      omega
    · cases found
  · rintro rfl
    have inside : 0 ≤ (index.val : ℤ) ∧ (index.val : ℤ) < n := by omega
    rw [dif_pos inside]
    simp

@[simp] theorem Store.put_queue (s : Store M K n) (k : K) (i : Fin n) (m : M) :
    (s.put k i m).queue = s.queue := rfl

theorem Store.put_slots (s : Store M K n) (k k' : K) (i i' : Fin n) (m : M) :
    (s.put k i m).slots k' i' = if k' = k ∧ i' = i then some m else s.slots k' i' := by
  unfold put
  by_cases same : k' = k
  · subst same
    by_cases same' : i' = i
    · subst same'
      simp
    · simp [same']
  · simp [same]

/-- All that a call can do: drop a duplicate, leave a full queue alone, append to the queue, or
fill the slot the message asks for. -/
theorem store_cases (stored : R.store p msg = .ok (p', full)) :
    ((∃ v ∈ p.temp.entries (R.kind msg), R.kind v = R.kind msg ∧ R.id v = R.id msg) ∧ p' = p) ∨
    ((∀ v ∈ p.temp.entries (R.kind msg), R.kind v = R.kind msg → R.id v ≠ R.id msg) ∧
      ((R.kind msg = none ∧ n ≤ p.temp.queue.length ∧ p' = p) ∨
       (R.kind msg = none ∧ p.temp.queue.length < n ∧
         p'.temp = { p.temp with queue := p.temp.queue ++ [msg] }) ∨
       ∃ k index, R.kind msg = some k ∧ R.index msg = (index.val : ℤ) ∧
         R.check msg = .ok () ∧ p'.temp = p.temp.put k index msg)) := by
  unfold Rules.store at stored
  have fresh : ∀ l, ¬ find R.toLabels l msg = true →
      ∀ v ∈ l, R.kind v = R.kind msg → R.id v ≠ R.id msg := by
    intro l missing v mem kind_eq id_eq
    exact missing (find_eq_true_iff.mpr ⟨v, mem, kind_eq, id_eq⟩)
  split at stored
  · rename_i kind_eq
    rw [kind_eq]
    simp only [pure_eq_ok, storeQueue] at stored
    split at stored
    · rename_i dup
      rw [find_eq_true_iff, kind_eq] at dup
      exact .inl ⟨dup, (Prod.mk.inj stored).1.symm⟩
    rename_i missing
    have fresh := fresh _ missing
    rw [kind_eq] at fresh
    refine .inr ⟨fresh, ?_⟩
    obtain ⟨rfl, -⟩ := Prod.mk.inj stored
    by_cases short : p.temp.queue.length < n
    · exact .inr (.inl ⟨rfl, short, by rw [if_pos short]⟩)
    · exact .inl ⟨rfl, not_lt.mp short, by rw [if_neg short]⟩
  · rename_i k kind_eq
    rw [kind_eq]
    unfold storeSlot at stored
    split at stored
    · rename_i dup
      rw [find_eq_true_iff, kind_eq] at dup
      exact .inl ⟨dup, (Prod.mk.inj (pure_eq_ok.mp stored)).1.symm⟩
    · rename_i missing
      have fresh := fresh _ missing
      rw [kind_eq] at fresh
      refine .inr ⟨fresh, ?_⟩
      simp only [eq_ok, slotIndex_eq_ok, Prod.mk.injEq] at stored
      obtain ⟨_, checked, index, index_eq, rfl, -⟩ := stored
      exact .inr (.inr ⟨k, index, rfl, index_eq, checked, rfl⟩)

/-- A panic comes from the check of the content or from an index outside the array. -/
theorem store_panic (panicked : R.store p msg = .error .panic) :
    R.check msg = .error .panic ∨ ∃ k, R.kind msg = some k ∧ ¬ (0 ≤ R.index msg ∧ R.index msg < n) := by
  unfold Rules.store at panicked
  split at panicked
  · exact absurd panicked (by simp [pure, Except.pure])
  rename_i k kind_eq
  unfold storeSlot at panicked
  split at panicked
  · exact absurd panicked (by simp [pure, Except.pure])
  cases checked : R.check msg with
  | error fault =>
    rw [checked] at panicked
    exact .inl (congrArg Except.error (Except.error.inj panicked))
  | ok _ =>
    rw [checked] at panicked
    refine .inr ⟨k, kind_eq, fun inside => ?_⟩
    have index_eq : slotIndex n (R.index msg) = .ok ⟨(R.index msg).toNat, by omega⟩ := by
      rw [slotIndex, dif_pos inside]
    simp only [index_eq, bind, Except.bind, pure, Except.pure] at panicked
    exact absurd panicked (by simp)

end

/-! ## Whatever the messages -/

section

variable (L : Labels M K I)

/-- What holds of the lists after the messages `received`. -/
structure Tidy (received : List M) (s : Store M K n) : Prop where
  queue_kind : ∀ m ∈ s.queue, L.kind m = none
  queue_sublist : s.queue.Sublist received
  queue_ids : (s.queue.map L.id).Nodup
  queue_length : s.queue.length ≤ n
  placed : ∀ {k i m}, s.slots k i = some m →
    L.kind m = some k ∧ m ∈ received ∧ L.index m = (i.val : ℤ)
  slot_ids : ∀ {k i j m m'}, s.slots k i = some m → s.slots k j = some m' → L.id m = L.id m' → i = j

theorem tidy_empty : Tidy L [] (Store.empty : Store M K n) where
  queue_kind := by simp [Store.empty]
  queue_sublist := List.Sublist.refl []
  queue_ids := nodup_nil
  queue_length := Nat.zero_le n
  placed := by simp [Store.empty]
  slot_ids := by simp [Store.empty]

variable {L} {received more : List M} {s : Store M K n} (tidy : Tidy L received s)

include tidy

theorem Tidy.mono (sublist : received.Sublist more) : Tidy L more s where
  queue_kind := tidy.queue_kind
  queue_sublist := tidy.queue_sublist.trans sublist
  queue_ids := tidy.queue_ids
  queue_length := tidy.queue_length
  placed held :=
    ⟨(tidy.placed held).1, sublist.subset (tidy.placed held).2.1, (tidy.placed held).2.2⟩
  slot_ids := tidy.slot_ids

theorem Tidy.append (kind_eq : L.kind msg = none)
    (fresh : ∀ v ∈ s.queue, L.id v ≠ L.id msg) (short : s.queue.length < n) :
    Tidy L (received ++ [msg]) { s with queue := s.queue ++ [msg] } where
  queue_kind m mem := by
    rcases mem_append.mp mem with old | new
    · exact tidy.queue_kind m old
    · rw [mem_singleton.mp new]
      exact kind_eq
  queue_sublist := tidy.queue_sublist.append_right [msg]
  queue_ids := by
    rw [map_append, map_singleton, nodup_append]
    refine ⟨tidy.queue_ids, nodup_singleton _, ?_⟩
    intro a old b new
    obtain ⟨v, mem, rfl⟩ := mem_map.mp old
    rw [mem_singleton.mp new]
    exact fresh v mem
  queue_length := by
    rw [length_append, length_singleton]
    omega
  placed held := ((tidy.mono (sublist_append_left _ _)).placed held)
  slot_ids := tidy.slot_ids

/-- The entries of a kind's list are of that kind. -/
theorem Tidy.kind_of_mem {kind : Option K} {m : M}
    (mem : m ∈ s.entries kind) : L.kind m = kind ∧ m ∈ received := by
  cases kind with
  | none => exact ⟨tidy.queue_kind m mem, tidy.queue_sublist.subset mem⟩
  | some k =>
    obtain ⟨i, held⟩ := Store.mem_entries_some.mp mem
    exact ⟨(tidy.placed held).1, (tidy.placed held).2.1⟩

variable [DecidableEq K]

theorem Tidy.put {k : K} {i : Fin n}
    (kind_eq : L.kind msg = some k) (index_eq : L.index msg = (i.val : ℤ))
    (fresh : ∀ v ∈ s.entries (some k), L.id v ≠ L.id msg) :
    Tidy L (received ++ [msg]) (s.put k i msg) where
  queue_kind := tidy.queue_kind
  queue_sublist := tidy.queue_sublist.trans (sublist_append_left _ _)
  queue_ids := tidy.queue_ids
  queue_length := tidy.queue_length
  placed {k' i' m} held := by
    rw [Store.put_slots] at held
    split at held
    · rename_i same
      obtain ⟨rfl, rfl⟩ := same
      rw [← Option.some.inj held]
      exact ⟨kind_eq, by simp, index_eq⟩
    · exact (tidy.mono (sublist_append_left _ _)).placed held
  slot_ids {k' i' j m m'} held held' id_eq := by
    -- the new message's id is fresh, so it can only be compared with itself
    rw [Store.put_slots] at held held'
    split at held
    · rename_i same
      obtain ⟨rfl, rfl⟩ := same
      split at held'
      · rename_i same'
        exact same'.2.symm
      · rw [← Option.some.inj held] at id_eq
        exact absurd id_eq.symm (fresh m' (Store.mem_entries_some.mpr ⟨j, held'⟩))
    · split at held'
      · rename_i same'
        obtain ⟨rfl, rfl⟩ := same'
        rw [← Option.some.inj held'] at id_eq
        exact absurd id_eq (fresh m (Store.mem_entries_some.mpr ⟨i', held⟩))
      · exact tidy.slot_ids held held' id_eq

omit tidy

variable [DecidableEq I]

theorem tidy_step (tidy : Tidy R.toLabels received p.temp)
    (stored : R.store p msg = .ok (p', full)) : Tidy R.toLabels (received ++ [msg]) p'.temp := by
  have grown := tidy.mono (sublist_append_left received [msg])
  rcases store_cases stored with ⟨-, rfl⟩ | ⟨fresh, rest⟩
  · exact grown
  have fresh : ∀ v ∈ p.temp.entries (R.kind msg), R.id v ≠ R.id msg := fun v mem =>
    fresh v mem (tidy.kind_of_mem mem).1
  rcases rest with ⟨-, -, rfl⟩ | ⟨kind_eq, short, temp_eq⟩ | ⟨k, i, kind_eq, index_eq, -, temp_eq⟩
  · exact grown
  · rw [temp_eq]
    rw [kind_eq] at fresh
    exact tidy.append kind_eq fresh short
  · rw [temp_eq]
    rw [kind_eq] at fresh
    exact tidy.put kind_eq index_eq fresh

variable {msgs : List M}

theorem run_cons_eq_ok :
    R.run p (msg :: msgs) = .ok p' ↔
      ∃ q full, R.store p msg = .ok (q, full) ∧ R.run q msgs = .ok p' := by
  simp only [Rules.run, foldlM_cons, eq_ok]
  constructor
  · rintro ⟨q, ⟨⟨r, full⟩, stored, rfl⟩, rest⟩
    exact ⟨r, full, stored, rest⟩
  · rintro ⟨q, full, stored, rest⟩
    exact ⟨q, ⟨(q, full), stored, rfl⟩, rest⟩

theorem run_append_eq_ok :
    R.run p (msgs ++ more) = .ok p' ↔ ∃ q, R.run p msgs = .ok q ∧ R.run q more = .ok p' := by
  rw [Rules.run, foldlM_append, bind_eq_ok]
  rfl

/-- Nothing is taken out of the queue. -/
theorem queue_run (run : R.run p msgs = .ok p') :
    p.temp.queue <+: p'.temp.queue := by
  induction msgs generalizing p with
  | nil =>
    rw [Rules.run, foldlM_nil, pure_eq_ok] at run
    rw [run]
  | cons msg msgs ih =>
    obtain ⟨q, full, stored, rest⟩ := run_cons_eq_ok.mp run
    refine List.IsPrefix.trans ?_ (ih rest)
    rcases store_cases stored with ⟨-, rfl⟩ | ⟨-, ⟨-, -, rfl⟩ | ⟨-, -, temp_eq⟩ | ⟨k, i, -, -, -, temp_eq⟩⟩
    · exact prefix_rfl
    · exact prefix_rfl
    · rw [temp_eq]
      exact prefix_append _ _
    · rw [temp_eq]
      exact prefix_rfl

theorem tidy_run (tidy : Tidy R.toLabels received p.temp) (run : R.run p msgs = .ok p') :
    Tidy R.toLabels (received ++ msgs) p'.temp := by
  induction msgs generalizing received p with
  | nil =>
    rw [Rules.run, foldlM_nil, pure_eq_ok] at run
    rw [← run, append_nil]
    exact tidy
  | cons msg msgs ih =>
    obtain ⟨q, full, stored, rest⟩ := run_cons_eq_ok.mp run
    have after := ih (tidy_step tidy stored) rest
    rwa [append_assoc, singleton_append] at after

end

/-! ## Messages that ask for the slot of their id -/

/-- Every id has at most one slot, and every slot at most one id. -/
structure Seating (I : Type) (n : ℕ) where
  seat : I → Option (Fin n)
  seat_inj : ∀ {a b i}, seat a = some i → seat b = some i → a = b

/-- The slot of an id is its place in a list. -/
def Seating.ofList [DecidableEq I] (ids : List I) (n : ℕ) : Seating I n where
  seat a := (List.finRange n).find? fun i => ids[i.val]? = some a
  seat_inj {a b i} a_seat b_seat := by
    have a_at := find?_some a_seat
    have b_at := find?_some b_seat
    rw [decide_eq_true_eq] at a_at b_at
    exact Option.some.inj (a_at.symm.trans b_at)

section Seated

variable (Z : Seating I n) {received : List M}

/-- The message's id has a slot, and a message with an index asks for that slot. -/
def Seated (L : Labels M K I) (m : M) : Prop :=
  ∃ i, Z.seat (L.id m) = some i ∧ ∀ k, L.kind m = some k → L.index m = (i.val : ℤ)

variable {Z} {k : K} {i : Fin n} {m : M}

theorem seat_of_placed {L : Labels M K I} {s : Store M K n} (tidy : Tidy L received s)
    (seated : ∀ m ∈ received, Seated Z L m) (held : s.slots k i = some m) :
    Z.seat (L.id m) = some i := by
  obtain ⟨kind_eq, mem, index_eq⟩ := tidy.placed held
  obtain ⟨j, seat_eq, asks⟩ := seated m mem
  have same : j = i := Fin.ext (by exact_mod_cast (asks k kind_eq).symm.trans index_eq)
  rw [seat_eq, same]

/-- Distinct ids with slots are at most as many as the slots. -/
theorem length_le_of_seats {ids : List I} (nodup : ids.Nodup)
    (seats : ∀ a ∈ ids, ∃ i, Z.seat a = some i) : ids.length ≤ n := by
  have distinct : (ids.map Z.seat).Nodup := by
    refine (nodup_map_iff_inj_on nodup).mpr fun a a_mem b b_mem seat_eq => ?_
    obtain ⟨i, a_seat⟩ := seats a a_mem
    exact Z.seat_inj a_seat (seat_eq ▸ a_seat)
  have within : ids.map Z.seat ⊆ (List.finRange n).map some := by
    intro o mem
    obtain ⟨a, a_mem, rfl⟩ := mem_map.mp mem
    obtain ⟨i, a_seat⟩ := seats a a_mem
    rw [a_seat]
    exact mem_map_of_mem (mem_finRange i)
  simpa using (subperm_of_subset distinct within).length_le

variable [DecidableEq K] [DecidableEq I] (tidy : Tidy R.toLabels received p.temp)

include tidy

section

variable (seated : ∀ m ∈ received, Seated Z R.toLabels m) (msg_seated : Seated Z R.toLabels msg)
  (stored : R.store p msg = .ok (p', full))

include seated msg_seated stored

/-- A message of another id never replaces an entry. -/
theorem kept_step (held : p.temp.slots k i = some m) : p'.temp.slots k i = some m := by
  rcases store_cases stored with ⟨-, rfl⟩ | ⟨fresh, rest⟩
  · exact held
  rcases rest with ⟨-, -, rfl⟩ | ⟨-, -, temp_eq⟩ | ⟨k', i', kind_eq, index_eq, -, temp_eq⟩
  · exact held
  · rw [temp_eq]
    exact held
  rw [temp_eq, Store.put_slots]
  split
  · -- the slot belongs to the message's id, so the entry would be a duplicate
    rename_i same
    obtain ⟨rfl, rfl⟩ := same
    obtain ⟨j, seat_eq, asks⟩ := msg_seated
    have same : j = i := Fin.ext (by exact_mod_cast (asks k kind_eq).symm.trans index_eq)
    have id_eq := Z.seat_inj (seat_of_placed tidy seated held) (same ▸ seat_eq)
    have mem : m ∈ p.temp.entries (R.kind msg) := by
      rw [kind_eq]
      exact Store.mem_entries_some.mpr ⟨i, held⟩
    exact absurd id_eq (fresh m mem (tidy.kind_of_mem mem).1)
  · exact held

omit seated msg_seated stored in
theorem kept_run {msgs : List M}
    (seated : ∀ m ∈ received ++ msgs, Seated Z R.toLabels m) (run : R.run p msgs = .ok p')
    (held : p.temp.slots k i = some m) : p'.temp.slots k i = some m := by
  induction msgs generalizing received p with
  | nil =>
    rw [Rules.run, foldlM_nil, pure_eq_ok] at run
    rwa [← run]
  | cons msg msgs ih =>
    obtain ⟨q, full, stored, rest⟩ := run_cons_eq_ok.mp run
    have held_after := kept_step tidy (fun m mem => seated m (mem_append_left _ mem))
      (seated msg (by simp)) stored held
    refine ih (tidy_step tidy stored) (fun m mem => seated m ?_) rest held_after
    rwa [append_assoc, singleton_append] at mem

/-- After the call the message's list holds a message of its id. -/
theorem stored_step :
    ∃ v ∈ p'.temp.entries (R.kind msg), R.id v = R.id msg ∧
      ((∀ m ∈ received, R.kind m = R.kind msg → R.id m ≠ R.id msg) → v = msg) := by
  rcases store_cases stored with ⟨⟨v, mem, kind_eq, id_eq⟩, rfl⟩ | ⟨fresh, rest⟩
  · exact ⟨v, mem, id_eq, fun first => absurd id_eq (first v (tidy.kind_of_mem mem).2 kind_eq)⟩
  rcases rest with ⟨kind_eq, long, rfl⟩ | ⟨kind_eq, -, temp_eq⟩ | ⟨k, i, kind_eq, -, -, temp_eq⟩
  · -- a full queue without the message's id would hold more ids than there are slots
    exfalso
    obtain ⟨i, seat_eq, -⟩ := msg_seated
    have new : R.id msg ∉ p'.temp.queue.map R.id := by
      intro mem
      obtain ⟨v, v_mem, id_eq⟩ := mem_map.mp mem
      rw [kind_eq] at fresh
      exact fresh v v_mem (tidy.queue_kind v v_mem) id_eq
    have count := length_le_of_seats (Z := Z) (nodup_cons.mpr ⟨new, tidy.queue_ids⟩) (by
      intro a mem
      rcases mem_cons.mp mem with rfl | old
      · exact ⟨i, seat_eq⟩
      · obtain ⟨v, v_mem, rfl⟩ := mem_map.mp old
        obtain ⟨j, v_seat, -⟩ := seated v (tidy.queue_sublist.subset v_mem)
        exact ⟨j, v_seat⟩)
    rw [length_cons, length_map] at count
    omega
  · refine ⟨msg, ?_, rfl, fun _ => rfl⟩
    rw [temp_eq, kind_eq]
    simp [Store.entries]
  · refine ⟨msg, ?_, rfl, fun _ => rfl⟩
    rw [temp_eq, kind_eq, Store.mem_entries_some]
    exact ⟨i, by rw [Store.put_slots, if_pos ⟨rfl, rfl⟩]⟩

end

omit tidy

/-- Only the check of a message's content can panic. -/
theorem run_panic {msgs : List M} (seated : ∀ m ∈ msgs, Seated Z R.toLabels m)
    (panicked : R.run p msgs = .error .panic) : ∃ m ∈ msgs, R.check m = .error .panic := by
  induction msgs generalizing p with
  | nil => exact absurd panicked (by simp [Rules.run, pure, Except.pure])
  | cons msg msgs ih =>
    cases stored : R.store p msg with
    | error fault =>
      simp only [Rules.run, foldlM_cons, stored, bind, Except.bind] at panicked
      rw [Except.error.inj panicked] at stored
      rcases store_panic stored with checked | ⟨k, kind_eq, outside⟩
      · exact ⟨msg, mem_cons_self, checked⟩
      · obtain ⟨i, -, asks⟩ := seated msg mem_cons_self
        rw [asks k kind_eq] at outside
        exact absurd ⟨by omega, by omega⟩ outside
    | ok result =>
      simp only [Rules.run, foldlM_cons, stored, bind, Except.bind, pure,
        Except.pure] at panicked
      obtain ⟨m, mem, checked⟩ := ih (fun m mem => seated m (mem_cons_of_mem _ mem)) panicked
      exact ⟨m, mem_cons_of_mem _ mem, checked⟩

end Seated

end ThresholdDsa.SlotStore
