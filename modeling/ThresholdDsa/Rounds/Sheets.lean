/-
# Message lists filled by honest nodes

When every message carries the id of its sender and, if it has a slot, the index
of its sender, a list is a sheet with one place for each node.  `has s list j` is
that the list has the message of node `j`.  Storing a message adds its sender, and
`StoreMessage` answers `true` exactly when that completed the list
(`store_spec`); `Start` adds the node itself to the lists of its round
(`foldl_putOwn`).
-/
import ThresholdDsa.Rounds.DNode

namespace ThresholdDsa.Rounds

open Outcome SlotStore Function List

variable {M K I D : Type} {n : ℕ}

section

variable (P : Protocol M K I D n) (ID : Fin n → I)

def has (s : Store M K n) (list : Option K) (j : Fin n) : Prop := ∃ m ∈ s.entries list, P.id m = ID j

/-- A message of node `j` that passes the check of its content. -/
structure From (j : Fin n) (m : M) : Prop where
  id : P.id m = ID j
  index : ∀ k, P.kind m = some k → P.index m = (j.val : ℤ)
  check : P.check m = .ok ()

structure Orderly (s : Store M K n) : Prop where
  kind : ∀ {list m}, m ∈ s.entries list → P.kind m = list
  slot : ∀ {k j m}, s.slots k j = some m → P.id m = ID j
  queue : ∀ m ∈ s.queue, ∃ j, P.id m = ID j
  ids : (s.queue.map P.id).Nodup

variable {P ID} {s : Store M K n}

section

variable (distinct : Injective ID) (orderly : Orderly P ID s)

include distinct orderly

theorem has_slot_iff {k : K} {j : Fin n} : has P ID s (some k) j ↔ (s.slots k j).isSome := by
  simp only [has, Store.mem_entries_some]
  constructor
  · rintro ⟨m, ⟨i, held⟩, id_eq⟩
    obtain rfl : i = j := distinct ((orderly.slot held).symm.trans id_eq)
    simp [held]
  · intro held
    obtain ⟨m, held⟩ := Option.isSome_iff_exists.mp held
    exact ⟨m, ⟨j, held⟩, orderly.slot held⟩

/-- The queue has as many entries as senders. -/
theorem has_queue_iff [DecidableEq I] :
    (∀ j, has P ID s none j) ↔ n ≤ s.queue.length := by
  have within : (s.queue.map P.id).toFinset ⊆ Finset.univ.image ID := by
    intro a mem
    rw [mem_toFinset, mem_map] at mem
    obtain ⟨m, m_mem, rfl⟩ := mem
    obtain ⟨j, id_eq⟩ := orderly.queue m m_mem
    exact Finset.mem_image.mpr ⟨j, Finset.mem_univ j, id_eq.symm⟩
  have size : (s.queue.map P.id).toFinset.card = s.queue.length := by
    rw [toFinset_card_of_nodup orderly.ids, length_map]
  have nodes : (Finset.univ.image ID).card = n := by
    rw [Finset.card_image_of_injective _ distinct, Finset.card_univ, Fintype.card_fin]
  constructor
  · intro all
    have covers : Finset.univ.image ID ⊆ (s.queue.map P.id).toFinset := by
      intro a mem
      obtain ⟨j, -, rfl⟩ := Finset.mem_image.mp mem
      obtain ⟨m, m_mem, id_eq⟩ := all j
      rw [mem_toFinset, ← id_eq]
      exact mem_map_of_mem m_mem
    have := Finset.card_le_card covers
    omega
  · intro long j
    have same : (s.queue.map P.id).toFinset = Finset.univ.image ID :=
      Finset.eq_of_subset_of_card_le within (by rw [size, nodes]; exact long)
    have mem : ID j ∈ (s.queue.map P.id).toFinset := by
      rw [same]
      exact Finset.mem_image_of_mem ID (Finset.mem_univ j)
    rw [mem_toFinset, mem_map] at mem
    exact mem

/-- Every place of a list is taken exactly when the list has every node. -/
theorem entries_iff [DecidableEq I]
    (list : Option K) : (∀ j, (entry s j list).isSome) ↔ ∀ j, has P ID s list j := by
  cases list with
  | some k =>
    refine forall_congr' fun j => ?_
    rw [has_slot_iff distinct orderly]
    rfl
  | none =>
    rw [has_queue_iff distinct orderly]
    simp only [entry, isSome_getElem?]
    constructor
    · intro all
      by_contra short
      have := all ⟨s.queue.length, by omega⟩
      simp at this
    · intro long j
      have := j.isLt
      omega

end

theorem kind_of_entry (orderly : Orderly P ID s) {j : Fin n} {list : Option K} {m : M}
    (held : entry s j list = some m) : P.kind m = list := by
  cases list with
  | some k => exact orderly.kind (Store.mem_entries_some.mpr ⟨j, held⟩)
  | none => exact orderly.kind (mem_of_getElem? held)

end

/-! ## Filling the lists -/

section

variable {P : Protocol M K I D n} {ID : Fin n → I} {s : Store M K n} {m : M} {j : Fin n}

theorem Orderly.append (orderly : Orderly P ID s) (kind_eq : P.kind m = none)
    (id_eq : P.id m = ID j) (missing : ¬ has P ID s none j) :
    Orderly P ID { s with queue := s.queue ++ [m] } where
  kind {list v} mem := by
    cases list with
    | some k => exact orderly.kind (show v ∈ s.entries (some k) from mem)
    | none =>
      rcases mem_append.mp mem with old | new
      · exact orderly.kind (show v ∈ s.entries none from old)
      · rw [mem_singleton.mp new]
        exact kind_eq
  slot held := orderly.slot held
  queue v mem := by
    rcases mem_append.mp mem with old | new
    · exact orderly.queue v old
    · rw [mem_singleton.mp new]
      exact ⟨j, id_eq⟩
  ids := by
    rw [map_append, map_singleton, nodup_append]
    refine ⟨orderly.ids, nodup_singleton _, ?_⟩
    intro a old b new
    obtain ⟨v, mem, rfl⟩ := mem_map.mp old
    rw [mem_singleton.mp new, id_eq]
    intro same
    exact missing ⟨v, mem, same⟩

variable (distinct : Injective ID)

include distinct

theorem has_append (id_eq : P.id m = ID j) (list : Option K) (i : Fin n) :
    has P ID { s with queue := s.queue ++ [m] } list i ↔
      has P ID s list i ∨ list = none ∧ i = j := by
  cases list with
  | some k => simp [has, Store.entries]
  | none =>
    have same : ID j = ID i ↔ i = j := ⟨fun eq => (distinct eq).symm, fun eq => by rw [eq]⟩
    simp [has, Store.entries, id_eq, same]

variable [DecidableEq K] (orderly : Orderly P ID s)

include orderly

omit distinct in
theorem Orderly.put {k : K} (kind_eq : P.kind m = some k)
    (id_eq : P.id m = ID j) : Orderly P ID (s.put k j m) where
  kind {list v} mem := by
    cases list with
    | none => exact orderly.kind (show v ∈ s.entries none from mem)
    | some k' =>
      obtain ⟨i, held⟩ := Store.mem_entries_some.mp mem
      rw [Store.put_slots] at held
      split at held
      · rename_i same
        rw [← Option.some.inj held, kind_eq, same.1]
      · exact orderly.kind (Store.mem_entries_some.mpr ⟨i, held⟩)
  slot {k' i v} held := by
    rw [Store.put_slots] at held
    split at held
    · rename_i same
      rw [← Option.some.inj held, id_eq, same.2]
    · exact orderly.slot held
  queue := orderly.queue
  ids := orderly.ids

theorem has_put {k : K}
    (kind_eq : P.kind m = some k) (id_eq : P.id m = ID j) (list : Option K) (i : Fin n) :
    has P ID (s.put k j m) list i ↔ has P ID s list i ∨ list = some k ∧ i = j := by
  cases list with
  | none => simp [has, Store.entries]
  | some k' =>
    rw [has_slot_iff distinct (orderly.put kind_eq id_eq), has_slot_iff distinct orderly,
      Store.put_slots]
    by_cases same : k' = k ∧ i = j
    · simp [same]
    · have other : ¬ (some k' = some k ∧ i = j) := fun eq => same ⟨Option.some.inj eq.1, eq.2⟩
      rw [if_neg same]
      simp only [other, or_false]

/-- A message put into its list by its own sender. -/
theorem putOwn_spec {i : Fin n} (id_eq : P.id m = ID i) (missing : ¬ has P ID s (P.kind m) i) :
    Orderly P ID (putOwn i s (P.kind m) m) ∧ ∀ list j,
      has P ID (putOwn i s (P.kind m) m) list j ↔ has P ID s list j ∨ list = P.kind m ∧ j = i := by
  cases kind_eq : P.kind m with
  | none =>
    rw [kind_eq] at missing
    exact ⟨orderly.append kind_eq id_eq missing, has_append distinct id_eq⟩
  | some k => exact ⟨orderly.put kind_eq id_eq, has_put distinct orderly kind_eq id_eq⟩

/-- `Start` puts the node's own messages into lists that have none of them. -/
theorem foldl_putOwn {message : Option K → M} {i : Fin n} {lists : List (Option K)}
    (kinds : ∀ list ∈ lists, P.kind (message list) = list)
    (ids : ∀ list ∈ lists, P.id (message list) = ID i) (nodup : lists.Nodup)
    (missing : ∀ list ∈ lists, ¬ has P ID s list i) :
    Orderly P ID (lists.foldl (fun s list => putOwn i s list (message list)) s) ∧ ∀ list j,
      has P ID (lists.foldl (fun s list => putOwn i s list (message list)) s) list j ↔
        has P ID s list j ∨ list ∈ lists ∧ j = i := by
  induction lists generalizing s with
  | nil => simp [orderly]
  | cons top rest ih =>
    obtain ⟨new, nodup⟩ := nodup_cons.mp nodup
    have kind_eq := kinds top mem_cons_self
    obtain ⟨orderly', has_iff⟩ := putOwn_spec distinct orderly (ids top mem_cons_self)
      (by rw [kind_eq]; exact missing top mem_cons_self)
    rw [kind_eq] at orderly' has_iff
    have missing' : ∀ list ∈ rest, ¬ has P ID (putOwn i s top (message top)) list i := by
      intro list mem there
      rcases (has_iff list i).mp there with old | ⟨rfl, -⟩
      · exact missing list (mem_cons_of_mem _ mem) old
      · exact new mem
    obtain ⟨ordered, all_iff⟩ := ih orderly'
      (fun list mem => kinds list (mem_cons_of_mem _ mem))
      (fun list mem => ids list (mem_cons_of_mem _ mem)) nodup missing'
    refine ⟨ordered, fun list j => ?_⟩
    rw [foldl_cons, all_iff list j, has_iff list j, mem_cons]
    tauto

omit orderly

/-- `StoreMessage` with an honest message: it adds the sender, and answers `true` exactly when that
completed the list. -/
theorem store_spec [DecidableEq I] {p : Node M K D n}
    (orderly : Orderly P ID p.temp) (honest : From P ID j m) :
    ∃ p' full, P.store p m = .ok (p', full) ∧ Orderly P ID p'.temp ∧
      (∀ list i, has P ID p'.temp list i ↔ has P ID p.temp list i ∨ list = P.kind m ∧ i = j) ∧
      (full = true ↔ ¬ has P ID p.temp (P.kind m) j ∧ ∀ i, has P ID p'.temp (P.kind m) i) := by
  have found_iff : find P.toLabels (p.temp.entries (P.kind m)) m = true ↔
      has P ID p.temp (P.kind m) j := by
    rw [find_eq_true_iff, has, honest.id]
    constructor
    · rintro ⟨v, mem, -, id_eq⟩
      exact ⟨v, mem, id_eq⟩
    · rintro ⟨v, mem, id_eq⟩
      exact ⟨v, mem, orderly.kind mem, id_eq⟩
  by_cases there : has P ID p.temp (P.kind m) j
  · -- a duplicate is dropped
    refine ⟨p, false, ?_, orderly, fun list i => ⟨.inl, ?_⟩, by simp [there]⟩
    · have found := found_iff.mpr there
      unfold Rules.store
      split
      · rename_i kind_eq
        rw [kind_eq] at found
        simp only [storeQueue, Store.entries] at found ⊢
        rw [if_pos found]
        rfl
      · rename_i k kind_eq
        rw [kind_eq] at found
        rw [storeSlot, if_pos found]
        rfl
    · rintro (old | ⟨rfl, rfl⟩)
      · exact old
      · exact there
  · have fresh : ¬ find P.toLabels (p.temp.entries (P.kind m)) m = true :=
      fun found => there (found_iff.mp found)
    cases kind_eq : P.kind m with
    | none =>
      rw [kind_eq] at fresh there
      simp only [Store.entries] at fresh
      -- the queue misses the sender, so it is not full
      have short : p.temp.queue.length < n := by
        by_contra long
        exact there ((has_queue_iff distinct orderly).mpr (not_lt.mp long) j)
      have ordered := orderly.append kind_eq honest.id there
      refine ⟨⟨{ p.temp with queue := p.temp.queue ++ [m] }, p.data⟩,
        decide ((p.temp.queue ++ [m]).length = n), ?_, ordered,
        has_append distinct honest.id, ?_⟩
      · simp only [Rules.store, kind_eq, storeQueue]
        rw [if_neg fresh, if_pos short]
        rfl
      · rw [decide_eq_true_eq, has_queue_iff distinct ordered, length_append,
          length_singleton]
        simp only [there, not_false_eq_true, true_and]
        omega
    | some k =>
      rw [kind_eq] at fresh there
      have ordered := orderly.put kind_eq honest.id
      have seat : slotIndex n (P.index m) = .ok j := slotIndex_eq_ok.mpr (honest.index k kind_eq)
      refine ⟨⟨p.temp.put k j m, P.keep m j p.data⟩, CheckFull ((p.temp.put k j m).slots k), ?_,
        ordered, has_put distinct orderly kind_eq honest.id, ?_⟩
      · simp only [Rules.store, kind_eq, storeSlot, honest.check, seat]
        rw [if_neg fresh]
        rfl
      · have some_node : n ≠ 0 := by
          have := j.isLt
          omega
        simp [CheckFull, there, has_slot_iff distinct ordered, some_node]

end

end ThresholdDsa.Rounds
