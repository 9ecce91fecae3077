/-
# The database of pre-sign data and who gets them

The calls on a node's pre-sign database as programs over single leveldb
operations: `PickPreSignData` with the loop of `HandleRPCSign` around it, the loop
of the handler of `ComSignBrocastData` (`GetPreSignData`, then
`DeletePreSignData`), and `PutPreSignData`.

Finding an entry and deleting it are two operations, and deleting a key that is
gone succeeds, so two calls can be given the same data
(`presign_handed_to_two_calls`).  `presign_handed_once`: not in a run in which a
call finds an entry only while no other call is between finding and deleting it.
-/
import ThresholdDsa.Lib.DbThreads
import ThresholdDsa.Lib.GoText

namespace ThresholdDsa.Smpc

open DbThreads GoText List

structure PreSignData where
  Key : List Char
  (K1 R Ry Sigma1 : ℤ)
  Gid : List Char
  Used : Bool
  Index : ℤ
  deriving DecidableEq, Repr

structure PickHashKey where
  (Hash PickKey : List Char)
  deriving DecidableEq, Repr

structure PickHashData where
  Hash : List Char
  Pre : PreSignData
  deriving DecidableEq, Repr

/-- The hash behind the database keys, `strings.ToLower`, `strings.EqualFold` and the maximal
number of entries for a public key and group. -/
structure PreSignStore (K : Type) where
  Keccak256Hash : List Char → K
  toLower : List Char → List Char
  folding : Folding
  PrePubDataCount : ℕ

/-- Where the pre-sign data of a command lie. -/
structure Place where
  (pubkey inputcode gid : List Char)

section

variable {K : Type} (S : PreSignStore K) (p : Place) (datakey : List Char)

def GetPreSignKey (index : ℕ) : Option K :=
  if p.pubkey = [] ∨ p.gid = [] then none
  else if p.inputcode ≠ [] then
    some (S.Keccak256Hash (S.toLower
      (p.pubkey ++ ':' :: p.inputcode ++ ':' :: p.gid ++ ':' :: itoa index)))
  else some (S.Keccak256Hash (S.toLower (p.pubkey ++ ':' :: p.gid ++ ':' :: itoa index)))

/-- Read the entry at one index. -/
def probe (test : PreSignData → Bool) (p : Place) (index : ℕ) :
    Prog K PreSignData (Option (ℕ × PreSignData)) :=
  match GetPreSignKey S p index with
  | none => .ret none
  | some key => .find key test (fun psd => .ret (some (index, psd))) (.ret none)

def BinarySearchPick (start stop : ℕ) :
    Prog K PreSignData (Option (ℕ × PreSignData)) :=
  Prog.halving (probe S (fun _ => true) p) (stop + 1 - start) start stop

def BinarySearchPreSignData (start stop : ℕ) :
    Prog K PreSignData (Option (ℕ × PreSignData)) :=
  Prog.halving (probe S (fun psd => S.folding.EqualFold psd.Key datakey) p) (stop + 1 - start)
    start stop

def PickPreSignData : Prog K PreSignData (Option PreSignData) :=
  if p.pubkey = [] ∨ p.gid = [] ∨ S.PrePubDataCount < 1 then .ret none
  else (BinarySearchPick S p 0 (S.PrePubDataCount - 1)).bind fun
    | none => .ret none
    | some (index, data) =>
      match GetPreSignKey S p index with
      | none => .ret none
      | some key => .del key fun deleted => .ret (if deleted then some data else none)

def GetPreSignData : Prog K PreSignData (Option PreSignData) :=
  if p.pubkey = [] ∨ p.gid = [] ∨ datakey = [] ∨ S.PrePubDataCount < 1 then .ret none
  else (BinarySearchPreSignData S p datakey 0 (S.PrePubDataCount - 1)).bind fun found =>
    .ret (found.map Prod.snd)

/-- Whether the deletion returned without an error. -/
def DeletePreSignData : Prog K PreSignData Bool :=
  if p.pubkey = [] ∨ p.gid = [] ∨ datakey = [] ∨ S.PrePubDataCount < 1 then .ret false
  else (BinarySearchPreSignData S p datakey 0 (S.PrePubDataCount - 1)).bind fun
    | none => .ret false
    | some (index, _) =>
      match GetPreSignKey S p index with
      | none => .ret false
      | some key => .del key .ret

/-- Whether the data were stored without an error; a forced update hides its errors. -/
def PutPreSignData (index : ℕ) (val : PreSignData) (force : Bool) :
    Prog K PreSignData Bool :=
  match GetPreSignKey S p index with
  | none => .ret false
  | some key => .absent key fun missing =>
    if missing then .put key val .ret
    else if force then .put key val fun _ => .ret true
    else .ret false

/-- The loop of `HandleRPCSign` over the hashes of a command. -/
def rpcSignLoop (p : Place) : (MsgHash : List (List Char)) → (pickdata : List PickHashData) →
    Prog K PreSignData (Option (List PickHashData))
  | [], pickdata => .ret (some pickdata)
  | vv :: rest, pickdata => (PickPreSignData S p).bind fun
      | none => .ret none
      | some pick => rpcSignLoop p rest (pickdata ++ [{ Hash := vv, Pre := pick }])

/-- The loop of the handler of `ComSignBrocastData`. -/
def brocastLoop (p : Place) : (PickHash : List PickHashKey) → (pickdata : List PickHashData) →
    Prog K PreSignData (Option (List PickHashData))
  | [], pickdata => .ret (some pickdata)
  | vv :: rest, pickdata => (GetPreSignData S p vv.PickKey).bind fun
      | none => .ret none
      | some pre => (DeletePreSignData S p vv.PickKey).bind fun
          | false => .ret none
          | true => brocastLoop p rest (pickdata ++ [{ Hash := vv.Hash, Pre := pre }])

/-- The calls on the database.  The data of a pick are used for one hash. -/
inductive Call where
  | pick (p : Place) (hash : List Char)
  | rpcSign (p : Place) (MsgHash : List (List Char))
  | brocast (p : Place) (PickHash : List PickHashKey)
  | put (p : Place) (index : ℕ) (val : PreSignData) (force : Bool)

/-- What a call does and the data it hands to `DoSign`. -/
def Call.prog : Call → Prog K PreSignData (Option (List PickHashData))
  | .pick p hash => (PickPreSignData S p).bind fun pick =>
    .ret (pick.map fun pre => [{ Hash := hash, Pre := pre }])
  | .rpcSign p MsgHash => rpcSignLoop S p MsgHash []
  | .brocast p PickHash => brocastLoop S p PickHash []
  | .put p index val force => (PutPreSignData S p index val force).bind fun _ => .ret none

def Call.puts : Call → List PreSignData
  | .put _ _ val _ => [val]
  | _ => []

/-- No call has taken a step. -/
def startCalls {ι : Type} (db : K → Option PreSignData) (calls : ι → Call) :
    Config ι K PreSignData (Option (List PickHashData)) where
  db := db
  threads i := ⟨(calls i).prog S, none, [], (calls i).puts⟩

end

/-- The data a call hands out. -/
def handed (result : Option (List PickHashData)) : List PreSignData :=
  (result.getD []).map (·.Pre)

/-! ## Calls hand out what they took -/

section

variable {K : Type} [DecidableEq K] {S : PreSignStore K} {entries : Set PreSignData} {p : Place}
  {held : Option (K × PreSignData)} {taken puts : List PreSignData}

theorem obeys_ret_none : Obeys handed entries (.ret none) held taken puts := .inl rfl

theorem obeys_search {A : Type} {give : A → List PreSignData} {test : PreSignData → Bool}
    {f : Option (ℕ × PreSignData) → Prog K PreSignData A} {start stop : ℕ}
    (miss : Obeys give entries (f none) held taken puts)
    (hit : ∀ index key v, GetPreSignKey S p index = some key → v ∈ entries → test v →
      Obeys give entries (f (some (index, v))) (some (key, v)) taken puts) :
    Obeys give entries ((Prog.halving (probe S test p) (stop + 1 - start) start stop).bind f) held
      taken puts := by
  rw [Prog.halving_eq_scan _ le_rfl]
  -- the search reads the keys one after the other; induction on those left to read
  induction List.range' start (stop + 1 - start) with
  | nil => exact miss
  | cons index rest ih =>
    rw [Prog.scan, Prog.bind_assoc]
    unfold probe
    cases key_eq : GetPreSignKey S p index with
    | none => exact ih
    | some key => exact ⟨ih, fun v mem tested => hit index key v key_eq mem tested⟩

variable {f : Option PreSignData → Prog K PreSignData (Option (List PickHashData))}

theorem obeys_pick (nothing : ∀ held, Obeys handed entries (f none) held taken puts)
    (picked : ∀ v ∈ entries, Obeys handed entries (f (some v)) none (taken ++ [v]) puts) :
    Obeys handed entries ((PickPreSignData S p).bind f) held taken puts := by
  unfold PickPreSignData
  split
  · exact nothing held
  rw [Prog.bind_assoc]
  apply obeys_search
  · exact nothing held
  · intro index key v key_eq mem _
    simp only [key_eq]
    refine ⟨nothing _, ?_⟩
    simp only [afterDelete, if_true]
    exact picked v mem

variable {datakey : List Char}

theorem obeys_get (nothing : Obeys handed entries (f none) held taken puts)
    (found : ∀ key v, v ∈ entries → S.folding.EqualFold v.Key datakey →
      Obeys handed entries (f (some v)) (some (key, v)) taken puts) :
    Obeys handed entries ((GetPreSignData S p datakey).bind f) held taken puts := by
  unfold GetPreSignData
  split
  · exact nothing
  · rw [Prog.bind_assoc]
    apply obeys_search
    · exact nothing
    · intro index key v _ mem same_key
      exact found key v mem same_key

theorem obeys_delete {f : Bool → Prog K PreSignData (Option (List PickHashData))}
    (failed : ∀ held, Obeys handed entries (f false) held taken puts)
    (deleted : ∀ v ∈ entries, S.folding.EqualFold v.Key datakey →
      Obeys handed entries (f true) none (taken ++ [v]) puts) :
    Obeys handed entries ((DeletePreSignData S p datakey).bind f) held taken puts := by
  unfold DeletePreSignData
  split
  · exact failed held
  rw [Prog.bind_assoc]
  apply obeys_search
  · exact failed held
  · intro index key v key_eq mem same_key
    simp only [key_eq]
    refine ⟨failed _, ?_⟩
    simp only [afterDelete, if_true]
    exact deleted v mem same_key

theorem obeys_rpcSignLoop (MsgHash : List (List Char)) (pickdata : List PickHashData)
    (held : Option (K × PreSignData)) :
    Obeys handed entries (rpcSignLoop S p MsgHash pickdata) held (pickdata.map (·.Pre)) puts := by
  induction MsgHash generalizing pickdata held with
  | nil => exact .inr rfl
  | cons vv rest ih =>
    apply obeys_pick
    · exact fun _ => obeys_ret_none
    · intro v _
      have next := ih (pickdata ++ [{ Hash := vv, Pre := v }]) none
      rwa [map_append] at next

variable (keys_apart : ∀ v ∈ entries, ∀ w ∈ entries, S.folding.EqualFold v.Key w.Key → v = w)

include keys_apart

/-- The entry that is deleted is the entry that was read, since no other has its key. -/
theorem obeys_brocastLoop
    (PickHash : List PickHashKey) (pickdata : List PickHashData) (held : Option (K × PreSignData)) :
    Obeys handed entries (brocastLoop S p PickHash pickdata) held (pickdata.map (·.Pre)) puts := by
  induction PickHash generalizing pickdata held with
  | nil => exact .inr rfl
  | cons vv rest ih =>
    apply obeys_get
    · exact obeys_ret_none
    intro key v mem same_key
    apply obeys_delete
    · exact fun _ => obeys_ret_none
    · intro w w_mem w_key
      simp only [Folding.EqualFold, decide_eq_true_eq] at same_key w_key keys_apart
      obtain rfl := keys_apart v mem w w_mem (same_key.trans w_key.symm)
      have next := ih (pickdata ++ [{ Hash := vv.Hash, Pre := v }]) none
      rwa [map_append] at next

omit keys_apart in
theorem obeys_put {index : ℕ} {val : PreSignData} {force : Bool} (to_put : val ∈ puts) :
    Obeys handed entries ((PutPreSignData S p index val force).bind fun _ => .ret none) held taken
      puts := by
  unfold PutPreSignData
  cases GetPreSignKey S p index with
  | none => exact obeys_ret_none
  | some key =>
    intro missing
    cases missing with
    | true => exact ⟨to_put, fun _ => obeys_ret_none⟩
    | false =>
      cases force with
      | true => exact ⟨to_put, fun _ => obeys_ret_none⟩
      | false => exact obeys_ret_none

theorem obeys_call (call : Call) : Obeys handed entries (call.prog S) none [] call.puts := by
  cases call with
  | pick p hash =>
    apply obeys_pick
    · exact fun _ => obeys_ret_none
    · exact fun v _ => .inr rfl
  | rpcSign p MsgHash => exact obeys_rpcSignLoop MsgHash [] none
  | brocast p PickHash => exact obeys_brocastLoop keys_apart PickHash [] none
  | put => exact obeys_put mem_cons_self

end

/-! ## Careful runs -/

section

variable {ι K : Type} [DecidableEq ι] [DecidableEq K] {S : PreSignStore K}
  {db : K → Option PreSignData} {calls : ι → Call}

/-- The data that are stored or will be put. -/
def known (db : K → Option PreSignData) (calls : ι → Call) : Set PreSignData :=
  { v | (∃ k, db k = some v) ∨ ∃ i, v ∈ (calls i).puts }

/-- All data are different, and so are their keys and nonce shares. -/
structure FreshData (S : PreSignStore K) (db : K → Option PreSignData) (calls : ι → Call) :
    Prop where
  one_place : ∀ {k k' v}, db k = some v → db k' = some v → k = k'
  unstored : ∀ {i v k}, v ∈ (calls i).puts → db k ≠ some v
  apart : ∀ {i j v}, v ∈ (calls i).puts → v ∈ (calls j).puts → i = j
  keys_apart : ∀ v ∈ known db calls, ∀ w ∈ known db calls,
    S.folding.EqualFold v.Key w.Key → v = w
  nonces_apart : ∀ v ∈ known db calls, ∀ w ∈ known db calls, v.K1 = w.K1 → v = w

omit [DecidableEq ι] in
theorem exclusive_start (fresh : FreshData S db calls) :
    Exclusive handed (known db calls) (startCalls S db calls) := by
  have nothing_held : ∀ i, ((startCalls S db calls).threads i).holds = none := by
    intro i
    unfold Thread.holds
    split <;> rfl
  constructor
  · intro i
    exact obeys_call fresh.keys_apart (calls i)
  simp only [nothing_held]
  constructor
  case stored => exact fun {k v} at_k => .inl ⟨k, at_k⟩
  case one_place => exact fresh.one_place
  case puts_entries => exact fun {i v} mem => .inr ⟨i, mem⟩
  case puts_nodup =>
    intro i
    cases call : calls i <;> simp [startCalls, Call.puts, call]
  case puts_apart => exact fresh.apart
  case puts_unstored => exact fresh.unstored
  all_goals simp [startCalls]

/-- **Pre-sign data are handed out once.**  In every run in which a call finds an entry only while
no other unfinished call holds it, a nonce share reaches `DoSign` at most once: the same share
means the same call and the same hash. -/
theorem presign_handed_once (fresh : FreshData S db calls)
    {c : Config ι K PreSignData (Option (List PickHashData))}
    (run : CarefulRun (startCalls S db calls) c) {i j : ι} {data data' : List PickHashData}
    (returned : (c.threads i).prog = .ret (some data))
    (returned' : (c.threads j).prog = .ret (some data')) :
    ∀ x ∈ data, ∀ y ∈ data', x.Pre.K1 = y.Pre.K1 → i = j ∧ x = y := by
  intro x x_mem y y_mem same_nonce
  have start := exclusive_start fresh
  obtain ⟨nodup, entries, once⟩ := careful_handed_once start run returned
  obtain ⟨-, entries', -⟩ := careful_handed_once start run returned'
  have x_handed : x.Pre ∈ handed (some data) := mem_map_of_mem x_mem
  have y_handed : y.Pre ∈ handed (some data') := mem_map_of_mem y_mem
  have same := fresh.nonces_apart _ (entries _ x_handed) _ (entries' _ y_handed) same_nonce
  obtain rfl := once j (some data') returned' x.Pre x_handed (same ▸ y_handed)
  obtain rfl : data = data' := by
    rw [returned] at returned'
    simpa using returned'
  exact ⟨rfl, inj_on_of_nodup_map nodup x_mem y_mem same⟩

end

/-! ## Two calls

A database with two entries; one call serves a command for hash `0`, the other a broadcast that
asks for an entry by its key, for hash `1`. -/

def smallStore : PreSignStore (List Char) where
  Keccak256Hash := id
  toLower := id
  folding := lowerFolding
  PrePubDataCount := 2

def smallPlace : Place := ⟨['p'], [], ['g']⟩

def smallData (i : Fin 2) : PreSignData :=
  ⟨if i.val = 0 then ['a'] else ['b'], i.val + 7, 1, 1, 1, ['g'], false, i.val⟩

def smallDb (key : List Char) : Option PreSignData :=
  if key = ['p', ':', 'g', ':', '0'] then some (smallData ⟨0, Nat.zero_lt_two⟩)
  else if key = ['p', ':', 'g', ':', '1'] then some (smallData (Fin.last 1))
  else none

def smallCalls (wanted : List Char) (i : Fin 2) : Call :=
  if i.val = 0 then .rpcSign smallPlace [['0']]
  else .brocast smallPlace [{ Hash := ['1'], PickKey := wanted }]

def smallStart (wanted : List Char) :
    Config (Fin 2) (List Char) PreSignData (Option (List PickHashData)) :=
  startCalls smallStore smallDb (smallCalls wanted)

theorem small_fresh (wanted : List Char) : FreshData smallStore smallDb (smallCalls wanted) := by
  have no_puts : ∀ i, (smallCalls wanted i).puts = [] := by
    intro i
    fin_cases i <;> rfl
  have stored : ∀ {k v}, smallDb k = some v →
      ∃ i, v = smallData i ∧ k = ['p', ':', 'g', ':', if i = 0 then '0' else '1'] := by
    intro k v at_k
    unfold smallDb at at_k
    split at at_k
    · rename_i key_eq
      exact ⟨0, (Option.some.inj at_k).symm, key_eq⟩
    · split at at_k
      · rename_i key_eq
        exact ⟨1, (Option.some.inj at_k).symm, key_eq⟩
      · cases at_k
  have of_known : ∀ v ∈ known smallDb (smallCalls wanted), ∃ i, v = smallData i := by
    rintro v (⟨k, at_k⟩ | ⟨i, mem⟩)
    · obtain ⟨i, rfl, -⟩ := stored at_k
      exact ⟨i, rfl⟩
    · rw [no_puts] at mem
      cases mem
  constructor
  · intro k k' v at_k at_k'
    obtain ⟨i, rfl, rfl⟩ := stored at_k
    obtain ⟨j, same, rfl⟩ := stored at_k'
    revert same
    fin_cases i <;> fin_cases j <;> decide
  · intro i v k mem
    rw [no_puts] at mem
    cases mem
  · intro i j v mem
    rw [no_puts] at mem
    cases mem
  · intro v v_known w w_known
    obtain ⟨i, rfl⟩ := of_known v v_known
    obtain ⟨j, rfl⟩ := of_known w w_known
    fin_cases i <;> fin_cases j <;> decide +kernel
  · intro v v_known w w_known
    obtain ⟨i, rfl⟩ := of_known v v_known
    obtain ⟨j, rfl⟩ := of_known w w_known
    fin_cases i <;> fin_cases j <;> decide +kernel

/-- The first call ends before the second begins. -/
theorem presign_handed_once_two_calls :
    ∃ c, CarefulRun (smallStart ['b']) c ∧
      (c.threads 0).prog = .ret (some [{ Hash := ['0'], Pre := smallData 0 }]) ∧
      (c.threads 1).prog = .ret (some [{ Hash := ['1'], Pre := smallData 1 }]) ∧
      (smallData 0).K1 ≠ (smallData 1).K1 := by
  let turns : List (Fin 2) := [0, 0, 1, 1, 1, 1, 1]
  have alone : ∀ m ≤ 7, ∀ i, turns[m]? = some i → ∀ j ≠ i,
      ((((smallStart ['b']).steps ((turns.take m).map (·, false))).threads j).holds).isNone := by
    decide +kernel
  have run : ∀ m ≤ 7,
      CarefulRun (smallStart ['b']) ((smallStart ['b']).steps ((turns.take m).map (·, false))) := by
    intro m
    induction m with
    | zero => exact fun _ => .start
    | succ m ih =>
      intro small
      obtain ⟨i, turn⟩ : ∃ i, turns[m]? = some i :=
        ⟨_, getElem?_eq_getElem (show m < turns.length by simp [turns]; omega)⟩
      rw [take_add_one, turn, Option.toList_some, map_append, Config.steps,
        foldl_append]
      refine (ih (by omega)).step i (careful_of_alone fun j other => ?_) false
      exact Option.isNone_iff_eq_none.mp (alone m (by omega) i turn j other)
  refine ⟨_, run 7 le_rfl, Prog.result_eq_some.mp (by decide +kernel),
    Prog.result_eq_some.mp (by decide +kernel), fun same => ?_⟩
  have once := presign_handed_once (small_fresh ['b']) (run 7 le_rfl) (i := 0) (j := 1)
    (Prog.result_eq_some.mp (by decide +kernel)) (Prog.result_eq_some.mp (by decide +kernel))
    { Hash := ['0'], Pre := smallData 0 } (mem_singleton_self _)
    { Hash := ['1'], Pre := smallData 1 } (mem_singleton_self _) same
  exact absurd once.1 (by decide)

/-- Both calls find the first entry before either deletes it, and both get it, for two hashes. -/
theorem presign_handed_to_two_calls :
    ∃ c, Run (smallStart ['a']) c ∧
      (c.threads 0).prog = .ret (some [{ Hash := ['0'], Pre := smallData 0 }]) ∧
      (c.threads 1).prog = .ret (some [{ Hash := ['1'], Pre := smallData 0 }]) := by
  refine ⟨(smallStart ['a']).steps [(0, false), (1, false), (1, false), (1, false), (0, false)],
    run_steps .start _, ?_, ?_⟩
  · exact Prog.result_eq_some.mp (by decide +kernel)
  · exact Prog.result_eq_some.mp (by decide +kernel)

end ThresholdDsa.Smpc
