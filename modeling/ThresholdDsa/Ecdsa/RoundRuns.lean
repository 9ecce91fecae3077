/-
# The rounds of key generation and signing in step

Key generation (rounds 0 to 7), signing (rounds 1 to 9) and the finalizing part of
signing (rounds 10 and 11) as instances of `Rounds.Protocol`: the lists that
`Update` of each round goes through and the messages its `CanAccept` accepts.
`kgRound3Messages1` is in no round: its messages are stored but never sent.

What the rounds compute is left open: `KGStart` and `SignStart` give, for each
message type, the content that a node puts into its message.  All that is asked
is that the contents pass the checks of `StoreMessage`.  `rounds_in_step` then
holds for every schedule.
-/
import ThresholdDsa.Rounds.Network
import ThresholdDsa.Ecdsa.StoreMessage

namespace ThresholdDsa.Ecdsa

open Outcome SlotStore Rounds Ec2 Function List

variable {n : ℕ}

namespace Keygen

def KGBody.IsBroadcast : KGBody → Bool
  | .round2 _ => false
  | .round31 _ => false
  | _ => true

/-- The lists of each round; the first one is the one `Update` loops over. -/
def kgLists : ℕ → List (Option KGList)
  | 0 => [none]
  | 1 => [some .kgRound1Messages]
  | 2 => [some .kgRound2Messages, some .kgRound2Messages1, some .kgRound2Messages2]
  | 3 => [some .kgRound3Messages]
  | 4 => [some .kgRound4Messages]
  | 5 => [some .kgRound5Messages1, some .kgRound5Messages, some .kgRound5Messages2]
  | 6 => [some .kgRound6Messages]
  | _ => []

def CanAccept (round : ℕ) (msg : KGMessage) : Bool :=
  match round, msg.body with
  | 0, .round0 => msg.body.IsBroadcast
  | 1, .round1 _ => msg.body.IsBroadcast
  | 2, .round2 _ => !msg.body.IsBroadcast
  | 2, .round21 _ => msg.body.IsBroadcast
  | 2, .round22 _ => msg.body.IsBroadcast
  | 3, .round3 _ => msg.body.IsBroadcast
  | 4, .round4 _ => msg.body.IsBroadcast
  | 5, .round5 _ => msg.body.IsBroadcast
  | 5, .round51 _ => msg.body.IsBroadcast
  | 5, .round52 _ => msg.body.IsBroadcast
  | 6, .round6 _ => msg.body.IsBroadcast
  | _, _ => false

def kgProtocol (H : Hashes) (n : ℕ) : Protocol KGMessage KGList (List Char) (KGData n) n where
  toRules := kgRules H n
  first := 0
  final := 7
  lists := kgLists
  CanAccept := CanAccept

/-- The contents of the messages that the rounds' `Start` makes; `KGRound2Message` differs for each
receiver. -/
structure KGStart (n : ℕ) where
  round1 : Fin n → LocalDNode n → KGRound1Message
  round2 : Fin n → Fin n → LocalDNode n → KGRound2Message
  round21 : Fin n → LocalDNode n → KGRound2Message1
  round22 : Fin n → LocalDNode n → KGRound2Message2
  round3 : Fin n → LocalDNode n → KGRound3Message
  round31 : Fin n → LocalDNode n → KGRound3Message1
  round4 : Fin n → LocalDNode n → KGRound4Message
  round5 : Fin n → LocalDNode n → KGRound5Message
  round51 : Fin n → LocalDNode n → KGRound5Message1
  round52 : Fin n → LocalDNode n → KGRound5Message2
  round6 : Fin n → LocalDNode n → KGRound6Message
  save : ℕ → Fin n → LocalDNode n → KGData n

def KGStart.body (c : KGStart n) (list : Option KGList) (i j : Fin n) (p : LocalDNode n) : KGBody :=
  match list with
  | none => .round0
  | some .kgRound1Messages => .round1 (c.round1 i p)
  | some .kgRound2Messages => .round2 (c.round2 i j p)
  | some .kgRound2Messages1 => .round21 (c.round21 i p)
  | some .kgRound2Messages2 => .round22 (c.round22 i p)
  | some .kgRound3Messages => .round3 (c.round3 i p)
  | some .kgRound3Messages1 => .round31 (c.round31 i p)
  | some .kgRound4Messages => .round4 (c.round4 i p)
  | some .kgRound5Messages => .round5 (c.round5 i p)
  | some .kgRound5Messages1 => .round51 (c.round51 i p)
  | some .kgRound5Messages2 => .round52 (c.round52 i p)
  | some .kgRound6Messages => .round6 (c.round6 i p)

/-- Every message is labelled with the id and the index of its sender. -/
def kgScript (ID : Fin n → List Char) (c : KGStart n) : Script KGMessage KGList (KGData n) n where
  message _ list i j p := ⟨ID i, i, c.body list i j p⟩
  save := c.save

theorem KGStart.body_list (c : KGStart n) (list : Option KGList) (i j : Fin n) (p : LocalDNode n) :
    (c.body list i j p).list = list := by
  rcases list with _ | list
  · rfl
  · cases list <;> rfl

/-- The round a list belongs to. -/
def kgRoundOf : Option KGList → Option ℕ
  | none => some 0
  | some .kgRound1Messages => some 1
  | some .kgRound2Messages | some .kgRound2Messages1 | some .kgRound2Messages2 => some 2
  | some .kgRound3Messages => some 3
  | some .kgRound3Messages1 => none
  | some .kgRound4Messages => some 4
  | some .kgRound5Messages | some .kgRound5Messages1 | some .kgRound5Messages2 => some 5
  | some .kgRound6Messages => some 6

theorem mem_kgLists {r : ℕ} {list : Option KGList} :
    list ∈ kgLists r ↔ kgRoundOf list = some r := by
  match r with
  | 0 | 1 | 2 | 3 | 4 | 5 | 6 =>
    rcases list with _ | list
    · decide
    · cases list <;> decide
  | r + 7 =>
    rcases list with _ | list
    · simp [kgLists, kgRoundOf]
    · cases list <;> simp [kgLists, kgRoundOf]

theorem kg_lawful (H : Hashes) (n : ℕ) : Lawful (kgProtocol H n) where
  order := show 0 < 7 by decide
  within {r list} mem := by
    match r, mem with
    | 0, _ | 1, _ | 2, _ | 3, _ | 4, _ | 5, _ | 6, _ => simp [kgProtocol]
    | r + 7, mem => exact absurd mem not_mem_nil
  nonempty {r} _ below := by
    simp only [kgProtocol] at below ⊢
    interval_cases r <;> decide
  nodup r := by
    match r with
    | 0 | 1 | 2 | 3 | 4 | 5 | 6 =>
      simp only [kgProtocol]
      decide
    | r + 7 => exact nodup_nil
  apart mem mem' := Option.some.inj ((mem_kgLists.mp mem).symm.trans (mem_kgLists.mp mem'))
  accepts {r m} mem := by
    have round_eq : kgRoundOf m.body.list = some r := mem_kgLists.mp mem
    obtain ⟨id, index, body⟩ := m
    cases body <;> cases round_eq <;> rfl

theorem kg_honest {H : Hashes} {ID : Fin n → List Char} (distinct : Injective ID)
    {c : KGStart n} (proves : ∀ i p, ntildeCheck H (c.round4 i p) = .ok ()) :
    Honest (kgProtocol H n) ID (kgScript ID c) where
  distinct := distinct
  kind {r list} _ i j p := c.body_list list i j p
  sender {r list} _ i j p := by
    refine ⟨rfl, fun _ _ => rfl, ?_⟩
    rcases list with _ | list
    · rfl
    · cases list with
      | kgRound4Messages => exact proves i p
      | _ => rfl

end Keygen

namespace Signing

def SignBody.IsBroadcast : SignBody → Bool
  | .round2 _ => false
  | .round4 _ => false
  | .round41 _ => false
  | _ => true

def signLists : ℕ → List (Option SignList)
  | 1 => [some .signRound1Messages]
  | 2 => [some .signRound2Messages]
  | 3 => [some .signRound3Messages]
  | 4 => [some .signRound4Messages, some .signRound4Messages1]
  | 5 => [some .signRound5Messages]
  | 6 => [some .signRound6Messages]
  | 7 => [some .signRound7Messages]
  | 8 => [some .signRound8Messages]
  | _ => []

def finalizeLists : ℕ → List (Option SignList)
  | 10 => [some .signRound9Messages]
  | _ => []

def CanAccept (round : ℕ) (msg : SignMessage) : Bool :=
  match round, msg.body with
  | 1, .round1 _ => msg.body.IsBroadcast
  | 2, .round2 _ => !msg.body.IsBroadcast
  | 3, .round3 _ => msg.body.IsBroadcast
  | 4, .round4 _ => !msg.body.IsBroadcast
  | 4, .round41 _ => !msg.body.IsBroadcast
  | 5, .round5 _ => msg.body.IsBroadcast
  | 6, .round6 _ => msg.body.IsBroadcast
  | 7, .round7 _ => msg.body.IsBroadcast
  | 8, .round8 _ => msg.body.IsBroadcast
  | 10, .round9 _ => msg.body.IsBroadcast
  | _, _ => false

def signProtocol (P : Primitives) (n : ℕ) : Protocol SignMessage SignList (List Char) Unit n where
  toRules := signRules P n
  first := 1
  final := 9
  lists := signLists
  CanAccept := CanAccept

/-- The rounds of a node with `Finalize()`. -/
def finalizeProtocol (P : Primitives) (n : ℕ) :
    Protocol SignMessage SignList (List Char) Unit n where
  toRules := signRules P n
  first := 10
  final := 11
  lists := finalizeLists
  CanAccept := CanAccept

/-- The contents of the messages; those of rounds 2 and 4 differ for each receiver. -/
structure SignStart (n : ℕ) where
  round1 : Fin n → LocalDNode n → SignRound1Message
  round2 : Fin n → Fin n → LocalDNode n → SignRound2Message
  round3 : Fin n → LocalDNode n → SignRound3Message
  round4 : Fin n → Fin n → LocalDNode n → SignRound4Message
  round41 : Fin n → Fin n → LocalDNode n → SignRound4Message1
  round5 : Fin n → LocalDNode n → SignRound5Message
  round6 : Fin n → LocalDNode n → SignRound6Message
  round7 : Fin n → LocalDNode n → SignRound7Message
  round8 : Fin n → LocalDNode n → SignRound8Message
  round9 : Fin n → LocalDNode n → SignRound9Message

def SignStart.body (c : SignStart n) (list : SignList) (i j : Fin n) (p : LocalDNode n) :
    SignBody :=
  match list with
  | .signRound1Messages => .round1 (c.round1 i p)
  | .signRound2Messages => .round2 (c.round2 i j p)
  | .signRound3Messages => .round3 (c.round3 i p)
  | .signRound4Messages => .round4 (c.round4 i j p)
  | .signRound4Messages1 => .round41 (c.round41 i j p)
  | .signRound5Messages => .round5 (c.round5 i p)
  | .signRound6Messages => .round6 (c.round6 i p)
  | .signRound7Messages => .round7 (c.round7 i p)
  | .signRound8Messages => .round8 (c.round8 i p)
  | .signRound9Messages => .round9 (c.round9 i p)

/-- Every list of signing has slots. -/
def signScript (ID : Fin n → List Char) (c : SignStart n) : Script SignMessage SignList Unit n where
  message _ list i j p := ⟨ID i, i, c.body (list.getD .signRound1Messages) i j p⟩
  save _ _ _ := ()

theorem SignStart.body_list (c : SignStart n) (list : SignList) (i j : Fin n) (p : LocalDNode n) :
    (c.body list i j p).list = list := by
  cases list <;> rfl

def signRoundOf : Option SignList → Option ℕ
  | none => none
  | some .signRound1Messages => some 1
  | some .signRound2Messages => some 2
  | some .signRound3Messages => some 3
  | some .signRound4Messages | some .signRound4Messages1 => some 4
  | some .signRound5Messages => some 5
  | some .signRound6Messages => some 6
  | some .signRound7Messages => some 7
  | some .signRound8Messages => some 8
  | some .signRound9Messages => none

variable {list : Option SignList}

theorem mem_signLists {r : ℕ} :
    list ∈ signLists r ↔ signRoundOf list = some r := by
  match r with
  | 0 | 1 | 2 | 3 | 4 | 5 | 6 | 7 | 8 =>
    rcases list with _ | list
    · decide
    · cases list <;> decide
  | r + 9 =>
    rcases list with _ | list
    · simp [signLists, signRoundOf]
    · cases list <;> simp [signLists, signRoundOf]

theorem mem_finalizeLists {r : ℕ} :
    list ∈ finalizeLists r ↔ r = 10 ∧ list = some .signRound9Messages := by
  by_cases ten : r = 10
  · rw [ten]
    simp [finalizeLists]
  · rw [finalizeLists]
    · simp [ten]
    · exact ten

theorem sign_lawful (P : Primitives) (n : ℕ) : Lawful (signProtocol P n) where
  order := show 1 < 9 by decide
  within {r list} mem := by
    match r, mem with
    | 1, _ | 2, _ | 3, _ | 4, _ | 5, _ | 6, _ | 7, _ | 8, _ => simp [signProtocol]
    | 0, mem | r + 9, mem => exact absurd mem not_mem_nil
  nonempty {r} above below := by
    simp only [signProtocol] at above below ⊢
    interval_cases r <;> decide
  nodup r := by
    match r with
    | 0 | 1 | 2 | 3 | 4 | 5 | 6 | 7 | 8 =>
      simp only [signProtocol]
      decide
    | r + 9 => exact nodup_nil
  apart mem mem' := Option.some.inj ((mem_signLists.mp mem).symm.trans (mem_signLists.mp mem'))
  accepts {r m} mem := by
    have round_eq : signRoundOf (some m.body.list) = some r := mem_signLists.mp mem
    obtain ⟨id, index, body⟩ := m
    cases body <;> cases round_eq <;> rfl

theorem finalize_lawful (P : Primitives) (n : ℕ) : Lawful (finalizeProtocol P n) where
  order := show 10 < 11 by decide
  within {r list} mem := by
    obtain ⟨rfl, -⟩ := mem_finalizeLists.mp mem
    simp [finalizeProtocol]
  nonempty {r} above below := by
    obtain rfl : r = 10 := by
      simp only [finalizeProtocol] at above below
      omega
    exact cons_ne_nil _ _
  nodup r := by
    by_cases ten : r = 10
    · rw [ten]
      exact nodup_singleton _
    · have none_there : (finalizeProtocol P n).lists r = [] :=
        eq_nil_iff_forall_not_mem.mpr fun list mem => ten (mem_finalizeLists.mp mem).1
      rw [none_there]
      exact nodup_nil
  apart mem mem' := (mem_finalizeLists.mp mem).1.trans (mem_finalizeLists.mp mem').1.symm
  accepts {r m} mem := by
    obtain ⟨rfl, list_eq⟩ := mem_finalizeLists.mp mem
    obtain ⟨id, index, body⟩ := m
    cases body <;> cases list_eq
    rfl

variable {ID : Fin n → List Char} {c : SignStart n}

theorem sign_honest {P : Primitives} (distinct : Injective ID)
    (proves : ∀ i p, tproofCheck P (c.round5 i p) = .ok ()) :
    Honest (signProtocol P n) ID (signScript ID c) where
  distinct := distinct
  kind {r list} mem i j p := by
    cases list with
    | none => cases mem_signLists.mp mem
    | some list => exact congrArg some (c.body_list list i j p)
  sender {r list} mem i j p := by
    refine ⟨rfl, fun _ _ => rfl, ?_⟩
    cases list with
    | none => cases mem_signLists.mp mem
    | some list =>
      cases list with
      | signRound5Messages => exact proves i p
      | _ => rfl

theorem finalize_honest {P : Primitives} (distinct : Injective ID) :
    Honest (finalizeProtocol P n) ID (signScript ID c) where
  distinct := distinct
  kind {r list} mem i j p := by
    obtain ⟨-, rfl⟩ := mem_finalizeLists.mp mem
    rfl
  sender {r list} mem i j p := by
    obtain ⟨-, rfl⟩ := mem_finalizeLists.mp mem
    exact ⟨rfl, fun _ _ => rfl, rfl⟩

end Signing

/-- Whatever the order in which messages are delivered, and however often: the rounds of every node
are started one after the other, each when the lists of the round before are full, no call hits a
nil round, and once everything has been delivered every node is in its last round. -/
theorem rounds_in_step (two : 2 ≤ n) {ID : Fin n → List Char} (distinct : Injective ID) :
    (∀ (H : Hashes) (c : Keygen.KGStart n),
      (∀ i p, Keygen.ntildeCheck H (c.round4 i p) = .ok ()) →
      ∀ N, Net.Reachable (Keygen.kgProtocol H n) (Keygen.kgScript ID c) ID
          (fun _ => Keygen.NewLocalDNode n) N →
        Synchronised (Keygen.kgProtocol H n) (Keygen.kgScript ID c) N) ∧
    (∀ (P : Primitives) (c : Signing.SignStart n),
      (∀ i p, Signing.tproofCheck P (c.round5 i p) = .ok ()) →
      ∀ N, Net.Reachable (Signing.signProtocol P n) (Signing.signScript ID c) ID
          (fun _ => Signing.NewLocalDNode n) N →
        Synchronised (Signing.signProtocol P n) (Signing.signScript ID c) N) ∧
    (∀ (P : Primitives) (c : Signing.SignStart n),
      ∀ N, Net.Reachable (Signing.finalizeProtocol P n) (Signing.signScript ID c) ID
          (fun _ => Signing.NewLocalDNode n) N →
        Synchronised (Signing.finalizeProtocol P n) (Signing.signScript ID c) N) := by
  refine ⟨fun H c proves N reached => ?_, fun P c proves N reached => ?_,
    fun P c N reached => ?_⟩
  · exact synchronised two (Keygen.kg_lawful H n) (Keygen.kg_honest distinct proves)
      (fun _ => rfl) reached
  · exact synchronised two (Signing.sign_lawful P n) (Signing.sign_honest distinct proves)
      (fun _ => rfl) reached
  · exact synchronised two (Signing.finalize_lawful P n) (Signing.finalize_honest distinct)
      (fun _ => rfl) reached

/-! ## Two nodes -/

/-- Contents whose proofs about `Ntilde = 7` hold for the challenge 0. -/
def fixedKG : Keygen.KGStart 2 where
  round1 _ _ := ⟨0, 0, ⟨0, 0, 0⟩⟩
  round2 _ _ _ := ⟨0, 0⟩
  round21 _ _ := ⟨0⟩
  round22 _ _ := ⟨0, ⟨[]⟩⟩
  round3 _ _ := ⟨[], [], []⟩
  round31 _ _ := ⟨0⟩
  round4 _ _ := ⟨⟨7, 2, 4⟩, ⟨List.replicate 128 1, List.replicate 128 0⟩,
    ⟨List.replicate 128 1, List.replicate 128 0⟩, 0⟩
  round5 _ _ := ⟨[]⟩
  round51 _ _ := ⟨0, ⟨[]⟩⟩
  round52 _ _ := ⟨0, ⟨[]⟩⟩
  round6 _ _ := ⟨⟨0, 0⟩, true⟩
  save _ _ p := p.data

/-- Contents whose proof about `T` holds on `zmodCurve 11` for the challenge 1. -/
def fixedSign : Signing.SignStart 2 where
  round1 _ _ := ⟨0, 0⟩
  round2 _ _ _ := ⟨⟨0, 0, 0, 0, 0, 0⟩⟩
  round3 _ _ := ⟨0, []⟩
  round4 _ _ _ := ⟨0, ⟨⟨0, 0, 0, 0, 0⟩, ⟨0, 0, 0, 0, 0⟩⟩⟩
  round41 _ _ _ := ⟨0, ⟨⟨0, 0, 0, 0, 0⟩, ⟨0, 0, 0, 0, 0⟩, (0, 0)⟩⟩
  round5 _ _ := ⟨0, (3, 1), ⟨(4, 1), 3, 2⟩⟩
  round6 _ _ := ⟨[], ⟨0, 0⟩⟩
  round7 _ _ := ⟨(0, 0), ⟨0, (0, 0), 0, 0, 0, 0, 0⟩⟩
  round8 _ _ := ⟨(0, 0), ⟨(0, 0), (0, 0), 0, 0⟩⟩
  round9 _ _ := ⟨0⟩

def twoIDs : Fin 2 → List Char := fun i => if i.val = 0 then ['1'] else ['2']

def fixedPrimitives : Primitives := ⟨zmodCurve 11, ⟨fun _ => [1], fun _ => []⟩, .ok (2, 1)⟩

theorem rounds_in_step_two :
    (∃ N, Net.Reachable (Keygen.kgProtocol ⟨fun _ => [], fun _ => []⟩ 2)
        (Keygen.kgScript twoIDs fixedKG) twoIDs (fun _ => Keygen.NewLocalDNode 2) N ∧
      N.delivered 0 ≠ [] ∧ Synchronised (Keygen.kgProtocol ⟨fun _ => [], fun _ => []⟩ 2)
        (Keygen.kgScript twoIDs fixedKG) N) ∧
    (∃ N, Net.Reachable (Signing.signProtocol fixedPrimitives 2)
        (Signing.signScript twoIDs fixedSign) twoIDs (fun _ => Signing.NewLocalDNode 2) N ∧
      N.delivered 0 ≠ [] ∧ Synchronised (Signing.signProtocol fixedPrimitives 2)
        (Signing.signScript twoIDs fixedSign) N) ∧
    (∃ N, Net.Reachable (Signing.finalizeProtocol fixedPrimitives 2)
        (Signing.signScript twoIDs fixedSign) twoIDs (fun _ => Signing.NewLocalDNode 2) N ∧
      N.delivered 0 ≠ [] ∧ Synchronised (Signing.finalizeProtocol fixedPrimitives 2)
        (Signing.signScript twoIDs fixedSign) N) := by
  have distinct : Injective twoIDs := by decide
  have ntilde : ∀ i p, Keygen.ntildeCheck ⟨fun _ => [], fun _ => []⟩ (fixedKG.round4 i p) = .ok () := by
    intro _ _
    simp only [fixedKG]
    decide +kernel
  have tproof : ∀ i p, Signing.tproofCheck fixedPrimitives (fixedSign.round5 i p) = .ok () := by
    intro _ _
    simp only [fixedSign]
    decide +kernel
  obtain ⟨keygen, signing, finalize⟩ := rounds_in_step (n := 2) (by decide) distinct
  -- both nodes are started, and node 0 gets the first message of node 1
  refine ⟨?_, ?_, ?_⟩
  · have reached : Net.Reachable (Keygen.kgProtocol ⟨fun _ => [], fun _ => []⟩ 2)
        (Keygen.kgScript twoIDs fixedKG) twoIDs (fun _ => Keygen.NewLocalDNode 2) _ :=
      .next (.next (.first (.start (i := 0) rfl)) (.start (i := 1) rfl))
        (.deliver (m := ⟨['2'], 1, .round0⟩) rfl (.head _)
          (show BaseUpdate _ _ 0 2 _ _ = _ from rfl))
    exact ⟨_, reached, cons_ne_nil _ _, keygen _ _ ntilde _ reached⟩
  · have reached : Net.Reachable (Signing.signProtocol fixedPrimitives 2)
        (Signing.signScript twoIDs fixedSign) twoIDs (fun _ => Signing.NewLocalDNode 2) _ :=
      .next (.next (.first (.start (i := 0) rfl)) (.start (i := 1) rfl))
        (.deliver (m := ⟨['2'], 1, .round1 ⟨0, 0⟩⟩) rfl (.head _)
          (show BaseUpdate _ _ 0 2 _ _ = _ from rfl))
    exact ⟨_, reached, cons_ne_nil _ _, signing _ _ tproof _ reached⟩
  · have reached : Net.Reachable (Signing.finalizeProtocol fixedPrimitives 2)
        (Signing.signScript twoIDs fixedSign) twoIDs (fun _ => Signing.NewLocalDNode 2) _ :=
      .next (.next (.first (.start (i := 0) rfl)) (.start (i := 1) rfl))
        (.deliver (m := ⟨['2'], 1, .round9 ⟨0⟩⟩) rfl (.head _)
          (show BaseUpdate _ _ 0 2 _ _ = _ from rfl))
    exact ⟨_, reached, cons_ne_nil _ _, finalize _ _ _ reached⟩

theorem at_most_one_behind_two : ∃ N r, Net.Reachable (Signing.finalizeProtocol fixedPrimitives 2)
      (Signing.signScript twoIDs fixedSign) twoIDs (fun _ => Signing.NewLocalDNode 2) N ∧
    (N.nodes 0).rnd = some r ∧ 10 < r.number ∧
    ∃ r', (N.nodes 1).rnd = some r' ∧ r.number ≤ r'.number + 1 := by
  have reached : Net.Reachable (Signing.finalizeProtocol fixedPrimitives 2)
      (Signing.signScript twoIDs fixedSign) twoIDs (fun _ => Signing.NewLocalDNode 2) _ :=
    .next (.next (.first (.start (i := 0) rfl)) (.start (i := 1) rfl))
      (.deliver (m := ⟨['2'], 1, .round9 ⟨0⟩⟩) rfl (.head _)
        (show BaseUpdate _ _ 0 2 _ _ = _ from rfl))
  refine ⟨_, ?_, reached, ?later, ?left, at_most_one_behind le_rfl (Signing.finalize_lawful _ 2)
    (Signing.finalize_honest (by decide)) (fun _ => rfl) reached ?later ?left 1⟩
  case later => rfl
  decide

end ThresholdDsa.Ecdsa
