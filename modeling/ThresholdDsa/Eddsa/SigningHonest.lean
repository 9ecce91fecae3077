/-
# An honest run of EdDSA signing

`runSigning` lets all signers run rounds 1 to 7 with every message delivered as it
was sent.  The signers hold shares of a polynomial of smaller degree than their
number, and its value at zero is the logarithm of the group's key.

A weighted share of a signer is its term of the interpolation at zero
(`lambda_eq`), so the responses add up to the hash times the secret plus the sum of
the nonces (`sum_responses`), and the signature satisfies the equation
(`edSigning_correct`).  The message in the equation is the bytes of the integer that
the rounds were given.  No integer has the byte string `[0]` (`message_zero_unsigned`).

Key generation and signing put the big-endian bytes of an id at the beginning of an array; the
points are different exactly up to 255 nodes (`ownPoints_iff`).
-/
import ThresholdDsa.Eddsa.SigningRounds

namespace ThresholdDsa.Eddsa.Signing

open LittleEndian Outcome GoText Ed Interpolation Polynomial Function List EdOps
open Ec2 (intBytes head_intBytes)
open Ecdsa.Keygen (uidOf uidOf_hexEncode_itoa)
open Eddsa.Keygen (cast_foldl_ScAdd reduced_foldl_ScAdd)

variable {n : ℕ}

/-! ## The run -/

structure SignerDraws where
  r1 : Round1Draws
  rndCommit : Bytes32

structure SigningTranscript (n : ℕ) where
  t1 : Fin n → Temp1
  m1 : Fin n → SignRound1Message
  m2 : Fin n → SignRound2Message
  m3 : Fin n → SignRound3Message
  t4 : Fin n → Temp4
  m4 : Fin n → SignRound4Message
  m5 : Fin n → SignRound5Message
  m6 : Fin n → SignRound6Message
  signature : Fin n → EdSignData

/-- All signers run rounds 1 to 7; the messages of signer `i` are in slot `i`. -/
def runSigning (O : EdOps) (verify : VerifyRoutine) (base : Fin n → SignBase n)
    (draws : Fin n → SignerDraws) : Outcome (SigningTranscript n) := do
  let r1 ← forRange fun i => round1Start O (base i) (draws i).r1
  let t1 := fun k => (r1 k).1
  let m1 := fun k => (r1 k).2
  let m2 ← forRange fun i => round2Start (base i) (t1 i)
  let m3 ← forRange fun i => round3Start (base i) (t1 i)
  let r4 ← forRange fun i => round4Start O (base i) (draws i).rndCommit (t1 i) m1 m2 m3
  let t4 := fun k => (r4 k).1
  let m4 := fun k => (r4 k).2
  let m5 ← forRange fun i => round5Start (base i) (t4 i)
  let m6 ← forRange fun i => round6Start O (base i) (t1 i) (t4 i) m4 m5
  let signature ← forRange fun i => round7Start O verify (t1 i) (t4 i) m6
  pure { t1, m1, m2, m3, t4, m4, m5, m6, signature }

/-- What arrives from the other signers; the entry of the party itself is not read. -/
structure Inbox (n : ℕ) where
  m1 : Fin n → SignRound1Message
  m2 : Fin n → SignRound2Message
  m3 : Fin n → SignRound3Message
  m4 : Fin n → SignRound4Message
  m5 : Fin n → SignRound5Message
  m6 : Fin n → SignRound6Message

/-- One party runs rounds 1 to 7 on whatever arrives. -/
def runDNode (O : EdOps) (verify : VerifyRoutine) (b : SignBase n) (d : SignerDraws)
    (inbox : Inbox n) : Outcome EdSignData := do
  let curIndex ← b.GetDNodeIDIndex
  let (t1, own1) ← round1Start O b d.r1
  let own2 ← round2Start b t1
  let own3 ← round3Start b t1
  let (t4, own4) ← round4Start O b d.rndCommit t1 (update inbox.m1 curIndex own1)
    (update inbox.m2 curIndex own2) (update inbox.m3 curIndex own3)
  let own5 ← round5Start b t4
  let own6 ← round6Start O b t1 t4 (update inbox.m4 curIndex own4)
    (update inbox.m5 curIndex own5)
  round7Start O verify t1 t4 (update inbox.m6 curIndex own6)

/-- What a run of all signers delivers to each of them. -/
def SigningTranscript.inbox (tr : SigningTranscript n) : Inbox n :=
  { m1 := tr.m1, m2 := tr.m2, m3 := tr.m3, m4 := tr.m4, m5 := tr.m5, m6 := tr.m6 }

variable {O : EdOps} {verify : VerifyRoutine}

/-- In a run of all signers each of them has such a run of its own. -/
theorem runDNode_of_runSigning {base : Fin n → SignBase n}
    {draws : Fin n → SignerDraws} {tr : SigningTranscript n}
    (indexed : ∀ i, (base i).GetDNodeIDIndex = .ok i)
    (run : runSigning O verify base draws = .ok tr) (i : Fin n) :
    runDNode O verify (base i) (draws i) tr.inbox = .ok (tr.signature i) := by
  simp only [runSigning, eq_ok, forRange_eq_ok] at run
  obtain ⟨r1, h1, m2, h2, m3, h3, r4, h4, m5, h5, m6, h6, signature, h7, rfl⟩ := run
  simp [runDNode, SigningTranscript.inbox, indexed i, h1 i, h2 i, h3 i, ok_bind, h4 i, h5 i, h6 i, h7 i]

/-- A signature that one party returns has passed `EdVerify` for the bytes of the integer. -/
theorem edVerify_of_runDNode {b : SignBase n} {d : SignerDraws}
    {inbox : Inbox n} {sig : EdSignData} (returned : runDNode O verify b d inbox = .ok sig) :
    ∃ txhash, b.txhash = some txhash ∧
      EdVerify O sig.Rx sig.Sx (intBytes txhash) b.save.FinalPkBytes = true := by
  simp only [runDNode, bind_eq_ok] at returned
  obtain ⟨curIndex, -, ⟨t1, own1⟩, first, own2, -, own3, -, ⟨t4, own4⟩, -, own5, -, own6, -, last⟩ :=
    returned
  simp only [round1Start, eq_ok, Prod.mk.injEq] at first
  obtain ⟨-, -, txhash, given, t1_eq, -⟩ := first
  have passed := edVerify_of_round7 last
  rw [← t1_eq] at passed
  exact ⟨txhash, given, passed⟩

/-- The signers with ids `ids` hold the values of `f` at their ids, and the key is the point of its
value at zero. -/
structure Signers {O : EdOps} {E : Type} [AddCommGroup E] (G : O.Model E) (base : Fin n → SignBase n)
    (ids : Fin n → ℕ) (f : (ZMod L)[X]) (txhash : ℤ) : Prop where
  range : ∀ i, 1 ≤ ids i ∧ ids i ≤ 255
  distinct : Injective ids
  idsign_eq : ∀ i k, (base i).idsign k = ids k
  kgid_eq : ∀ i, (base i).kgid = hexEncode (itoa (ids i))
  curDNodeID_eq : ∀ i, (base i).save.CurDNodeID = ids i
  share_eq : ∀ i, (value (base i).save.TSk : ZMod L) = f.eval (ids i : ZMod L)
  key_eq : ∀ i, (base i).save.FinalPkBytes = G.encode (G.mult (f.eval 0))
  txhash_eq : ∀ i, (base i).txhash = some txhash

/-- The documented behaviour of the imported `Verify`: it accepts a reduced `s` that satisfies the
equation. -/
def Accepts {O : EdOps} {E : Type} [AddCommGroup E] (G : O.Model E) (verify : VerifyRoutine) : Prop :=
  ∀ (P R : E) (message : List UInt8) (s : Bytes32), Reduced s →
    value s • G.B = R + value (messageHash O (G.encode R) (G.encode P) message) • P →
    verify (G.encode P) message (Fin.append (G.encode R) s) = true

/-- `EdVerify` tests the equation. -/
theorem edVerify_iff {E : Type} [AddCommGroup E] (G : O.Model E) (P R : E)
    (message : List UInt8) {s : Bytes32} (reduced : Reduced s) :
    EdVerify O (G.encode R) s message (G.encode P) = true ↔
      value s • G.B = R + value (messageHash O (G.encode R) (G.encode P) message) • P := by
  have right := G.point_add (G.point_fromBytes R) (G.point_smul
    (a := messageHash O (G.encode R) (G.encode P) message)
    (Model.last_le (reduced_ScReduce _)) (G.point_fromBytes P))
  rw [EdVerify, G.toBytes_eq (G.point_smulBase (Model.last_le reduced)), G.toBytes_eq right,
    decide_eq_true_eq, G.encode_injective.eq_iff]

/-- The test of the package itself is such a routine. -/
theorem accepts_edVerify {E : Type} [AddCommGroup E] (G : O.Model E) :
    Accepts G fun pk message sig => EdVerify O (lower sig) (upper sig) message pk := by
  intro P R message s reduced equation
  simp only [lower_append, upper_append]
  exact (edVerify_iff G P R message reduced).mpr equation

/-! ## Weights -/

/-- The loop of round 4 computes the weight of the signer at the points of the ids. -/
theorem lambda_eq_foldl {b : SignBase n} {i : Fin n} (own : b.save.CurDNodeID = b.idsign i) :
    lambda b i =
      .ok ((List.finRange n).foldl (timesStep (fun k => uidBytes (b.idsign k)) i) scOne) := by
  have step : ∀ lambda kk, (if kk = i then pure lambda
      else do
        let time ← (lagrangeTime (uidBytes (b.idsign kk)) (uidBytes b.save.CurDNodeID)).mapError
          fun _ => .error "calc time mod inverse fail"
        pure (ScMul lambda time) : Outcome Bytes32) =
      pure (timesStep (fun k => uidBytes (b.idsign k)) i lambda kk) := by
    intro lambda kk
    rw [own, lagrangeTime_eq, timesStep]
    by_cases at_i : kk = i
    · rw [if_pos at_i, if_neg (not_not.mpr at_i.symm)]
    · rw [if_neg at_i, if_pos (Ne.symm at_i)]
      rfl
  simp only [Signing.lambda, step]
  exact foldlM_pure

variable {E : Type} [AddCommGroup E] {G : O.Model E} {base : Fin n → SignBase n}
  {ids : Fin n → ℕ} {f : (ZMod L)[X]} {txhash : ℤ} (signers : Signers G base ids f txhash)

section Weights

include signers

theorem getDNodeIDIndex_eq (i : Fin n) : (base i).GetDNodeIDIndex = .ok i := by
  have named : (base i).kgid ≠ [] := by
    intro empty
    have read := uidOf_hexEncode_itoa (ids i)
    rw [← signers.kgid_eq, empty] at read
    have fails : uidOf [] = .error .panic := rfl
    exact absurd (fails.symm.trans read) (by simp)
  have found : ((List.finRange n).find? fun k => (base i).idsign k = (ids i : ℤ)) = some i := by
    refine find?_finRange fun k => ?_
    rw [decide_eq_true_eq, signers.idsign_eq, Nat.cast_inj]
    exact signers.distinct.eq_iff
  rw [SignBase.GetDNodeIDIndex, if_neg named, signers.kgid_eq, uidOf_hexEncode_itoa, ok_bind, found]
  rfl

theorem value_id (i : Fin n) : value (uidBytes (ids i)) = ids i :=
  value_uidBytes (signers.range i).1 (by have := (signers.range i).2; omega)

/-- Ids up to 255 differ modulo the order. -/
theorem cast_ids_injective : Injective fun i => (value (uidBytes (ids i)) : ZMod L) := by
  intro a b same
  have a_range := signers.range a
  have b_range := signers.range b
  exact signers.distinct (uidBytes_inj a_range.1 (by omega) b_range.1 (by omega) same)

theorem lambda_eq (i : Fin n) :
    lambda (base i) i =
      .ok ((List.finRange n).foldl (timesStep (fun k => uidBytes (ids k)) i) scOne) := by
  rw [lambda_eq_foldl (by rw [signers.curDNodeID_eq, signers.idsign_eq])]
  simp only [signers.idsign_eq]

end Weights

/-! ## Evaluation points -/

/-- In a group of `n`, the ids `1, …, n` have different points; what round 4 of key generation deals
to the party at position `k` is the value at the point of its id, and the weights of signing are
those of the same points. -/
structure OwnPoints (n : ℕ) : Prop where
  arrays : Injective fun i : Fin n => uidBytes ((i.val + 1 : ℕ) : ℤ)
  points : Injective fun i : Fin n => (value (uidBytes ((i.val + 1 : ℕ) : ℤ)) : ZMod L)
  dealt : ∀ (O : EdOps) (b : Ecdsa.Keygen.KeygenBase) (rnds : ℕ → Bytes32) (t1 : Keygen.Temp1)
    (msgs1 : Fin n → Keygen.KGRound1Message) (msgs2 : Fin n → Keygen.KGRound2Message)
    (msgs3 : Fin n → Keygen.KGRound3Message) (t4 : Keygen.Temp4)
    (msgs4 : Fin n → Keygen.KGRound4Message),
    Keygen.round4Start O b rnds t1 msgs1 msgs2 msgs3 = .ok (t4, msgs4) →
      ∃ ids cfs, b.GetIDs = .ok ids ∧ t4.uids = ids.map uidBytes ∧
        ∀ k, ∃ id, ids[k.val]? = some id ∧ calculatePolynomial cfs (uidBytes id) = .ok (msgs4 k).Share
  weights : ∀ (b : SignBase n) (i : Fin n), b.save.CurDNodeID = b.idsign i →
    lambda b i =
      .ok ((List.finRange n).foldl (timesStep (fun k => uidBytes (b.idsign k)) i) scOne)

/-- The share at a position is the value at the id there. -/
theorem dealt_at {cfs uids shares : List Bytes32} {n k : ℕ} {share : Bytes32}
    (dealt : List.Forall₂ (fun i share => (do
      let id ← deref uids[i]?
      calculatePolynomial cfs id) = .ok share) (List.range n) shares) (at_k : shares[k]? = some share) :
    ∃ id, uids[k]? = some id ∧ calculatePolynomial cfs id = .ok share := by
  obtain ⟨lt, rfl⟩ := List.getElem?_eq_some_iff.mp at_k
  have value_eq := dealt.get (dealt.length_eq ▸ lt) lt
  simp only [get_eq_getElem, getElem_range, eq_ok] at value_eq
  exact value_eq

theorem dealt_of_round4 {b : Ecdsa.Keygen.KeygenBase} {rnds : ℕ → Bytes32}
    {t1 : Keygen.Temp1} {msgs1 : Fin n → Keygen.KGRound1Message}
    {msgs2 : Fin n → Keygen.KGRound2Message} {msgs3 : Fin n → Keygen.KGRound3Message}
    {t4 : Keygen.Temp4} {msgs4 : Fin n → Keygen.KGRound4Message}
    (started : Keygen.round4Start O b rnds t1 msgs1 msgs2 msgs3 = .ok (t4, msgs4)) :
    ∃ ids cfs, b.GetIDs = .ok ids ∧ t4.uids = ids.map uidBytes ∧
      ∀ k, ∃ id, ids[k.val]? = some id ∧
        calculatePolynomial cfs (uidBytes id) = .ok (msgs4 k).Share := by
  simp only [Keygen.round4Start, eq_ok, Prod.exists, Prod.mk.injEq] at started
  obtain ⟨curIndex, -, ids, ids_eq, checks, -, cfs, _, shares, vss, _, sent, rfl, rfl⟩ := started
  simp only [Vss, eq_ok, Prod.mk.injEq] at vss
  obtain ⟨-, -, _, dealt, -, -, rfl⟩ := vss
  refine ⟨ids, coefficients (ScMul (Keygen.weightOf O msgs3 curIndex) t1.sk) rnds b.threshold, ids_eq, rfl,
    fun k => ?_⟩
  have sent_k := forRange_eq_ok.mp sent k
  simp only [eq_ok] at sent_k
  obtain ⟨share, share_at, msg_eq⟩ := sent_k
  obtain ⟨id, id_at, value_eq⟩ := dealt_at (mapM_eq_ok.mp dealt) share_at
  rw [← msg_eq]
  rw [List.getElem?_map, Option.map_eq_some_iff] at id_at
  obtain ⟨id', id'_at, rfl⟩ := id_at
  exact ⟨id', id'_at, value_eq⟩

/-- **Evaluation points.**  Every party has its own, and the rounds agree on them, exactly if the
group has at most 255 nodes. -/
theorem ownPoints_iff (n : ℕ) : OwnPoints n ↔ n ≤ 255 := by
  constructor
  · intro own
    by_contra large
    have same : (⟨255, by omega⟩ : Fin n) = ⟨0, by omega⟩ := own.arrays uidBytes_256
    cases same
  · intro small
    have points : Injective fun i : Fin n => (value (uidBytes ((i.val + 1 : ℕ) : ℤ)) : ZMod L) := by
      intro a b same
      have equal := uidBytes_inj (Nat.succ_pos a) (by omega) (Nat.succ_pos b) (by omega) same
      exact Fin.ext (Nat.succ.inj equal)
    exact
      { arrays := fun a b same => points (congrArg (fun array => (value array : ZMod L)) same)
        points
        dealt := fun _ _ _ _ _ _ _ _ _ started => dealt_of_round4 started
        weights := fun _ _ own => lambda_eq_foldl own }

/-- In a group of 256, the first party and the last have one array. -/
theorem ownPoints_collide : uidBytes 256 = uidBytes 1 ∧ ¬ OwnPoints 256 := by
  refine ⟨uidBytes_256, fun own => ?_⟩
  have same : (⟨255, by norm_num⟩ : Fin 256) = ⟨0, by norm_num⟩ := own.arrays uidBytes_256
  cases same

/-! ## What honest signers send -/

/-- The nonce made of a draw. -/
def nonce (d : Round1Draws) : Bytes32 := ScReduce (copy (32 + 32) d.r)

/-- What round 1 stores and sends. -/
def round1Data (O : EdOps) (b : SignBase n) (txhash : ℤ) (d : Round1Draws) : Temp1 × SignRound1Message :=
  let r := nonce d
  let RBytes := O.ToBytes (O.GeScalarMultBase r)
  ({ tsk := b.save.TSk, pkfinal := b.save.FinalPkBytes, message := intBytes txhash,
     DR := (O.Commit d.rndCommit RBytes).2, zkR := O.Prove2 d.rndProof r RBytes, r },
    { CR := (O.Commit d.rndCommit RBytes).1 })

/-- The message of round 3. -/
def round3Data (O : EdOps) (d : Round1Draws) : SignRound3Message :=
  { DR := (O.Commit d.rndCommit (O.ToBytes (O.GeScalarMultBase (nonce d)))).2 }

/-- `FinalRBytes` of an honest run. -/
def finalR (O : EdOps) (draws : Fin n → SignerDraws) : Bytes32 :=
  O.ToBytes (O.sumRange fun k => O.FromBytes (openedR (round3Data O (draws k).r1)))

/-- The response of signer `i` to the hash `k`. -/
def response (base : Fin n → SignBase n) (ids : Fin n → ℕ) (draws : Fin n → SignerDraws) (k : Bytes32)
    (i : Fin n) : Bytes32 :=
  ScAdd (ScMul (ScMul ((List.finRange n).foldl (timesStep (fun k => uidBytes (ids k)) i) scOne)
    (base i).save.TSk) k) (nonce (draws i).r1)

theorem reduced_response (base : Fin n → SignBase n) (ids : Fin n → ℕ) (draws : Fin n → SignerDraws)
    (k : Bytes32) (i : Fin n) : Reduced (response base ids draws k i) :=
  reduced_ScAdd _ _

/-- The hash that all signers answer. -/
noncomputable def commonHash {O : EdOps} {E : Type} [AddCommGroup E] (G : O.Model E) (f : (ZMod L)[X])
    (txhash : ℤ) (draws : Fin n → SignerDraws) : Bytes32 :=
  messageHash O (finalR O draws) (G.encode (G.mult (f.eval 0))) (intBytes txhash)

/-- What round 4 stores and sends. -/
def round4Data (O : EdOps) (rndCommit FinalRBytes s : Bytes32) : Temp4 × SignRound4Message :=
  let sBBytes := O.ToBytes (O.GeScalarMultBase s)
  ({ s, sBBytes, DSB := (O.Commit rndCommit sBBytes).2, FinalRBytes },
    { CSB := (O.Commit rndCommit sBBytes).1 })

section

variable (G) (draws : Fin n → SignerDraws)

theorem openedR_eq (d : Round1Draws) :
    openedR (round3Data O d) = G.encode (G.mult (value (nonce d))) := by
  have point := G.toBytes_eq (G.point_base (reduced_ScReduce (copy (32 + 32) d.r)))
  rw [openedR, round3Data, Commit, upper_append]
  exact point

theorem finalR_eq (pos : 0 < n) : finalR O draws =
    G.encode (G.mult (∑ k, (value (nonce (draws k).r1) : ZMod L))) := by
  have points : ∀ k, G.point (O.FromBytes (openedR (round3Data O (draws k).r1))) =
      some (G.mult (value (nonce (draws k).r1))) := by
    intro k
    rw [openedR_eq G]
    exact G.point_fromBytes _
  rw [finalR, G.toBytes_eq (G.point_sumRange pos points), map_sum]

theorem point_finalR (pos : 0 < n) : G.point (O.FromBytes (finalR O draws)) =
    some (G.mult (∑ k, (value (nonce (draws k).r1) : ZMod L))) := by
  rw [finalR_eq G draws pos]
  exact G.point_fromBytes _

theorem point_hashedKey (f : (ZMod L)[X]) (txhash : ℤ) :
    G.point (O.GeScalarMult (commonHash G f txhash draws)
        (O.FromBytes (G.encode (G.mult (f.eval 0))))) =
      some (G.mult (value (commonHash G f txhash draws) * f.eval 0)) :=
  G.point_mult (reduced_ScReduce _) (G.point_fromBytes _)

include G in
theorem round4Check_honest (b : SignBase n) (d : Round1Draws) :
    round4Check O (round1Data O b txhash d).2 { ZkR := (round1Data O b txhash d).1.zkR }
      (round3Data O d) = .ok () := by
  have committed : O.Verify (round1Data O b txhash d).2.CR (round3Data O d).DR = true :=
    O.verify_commit _ _
  have opened : openedR (round3Data O d) = O.ToBytes (O.GeScalarMultBase (nonce d)) := by
    rw [openedR, round3Data, Commit, upper_append]
  have proved : O.VerifyZk2 (round1Data O b txhash d).1.zkR (openedR (round3Data O d)) = true := by
    rw [opened]
    exact verifyZk2_prove2 G _ _ (opened.symm.trans (openedR_eq G d))
  rw [round4Check, committed, proved]
  rfl

include signers

/-- The responses add up to the hash times the secret plus the nonces. -/
theorem sum_responses (degree : f.degree < n) (k : Bytes32) :
    ∑ i, (value (response base ids draws k i) : ZMod L) =
      value k * f.eval 0 + ∑ i, (value (nonce (draws i).r1) : ZMod L) := by
  have each : ∀ i, (value (response base ids draws k i) : ZMod L) =
      value k * (f.eval (value (uidBytes (ids i)) : ZMod L) *
        weight (fun j => (value (uidBytes (ids j)) : ZMod L)) i) + value (nonce (draws i).r1) := by
    intro i
    rw [response, cast_ScAdd, cast_ScMul, cast_ScMul, cast_lagrangeTimes, signers.share_eq,
      value_id signers]
    ring
  simp only [each]
  rw [Finset.sum_add_distrib, ← Finset.mul_sum, ← eval_zero_eq_sum (cast_ids_injective signers) degree]

theorem round1_eq (i : Fin n) :
    round1Start O (base i) (draws i).r1 = .ok (round1Data O (base i) txhash (draws i).r1) := by
  rw [round1Start, getDNodeIDIndex_eq signers, signers.txhash_eq]
  rfl

/-- Round 4 accepts the nonces and answers the hash. -/
theorem round4_eq (i : Fin n) :
    round4Start O (base i) (draws i).rndCommit (round1Data O (base i) txhash (draws i).r1).1
        (fun k => (round1Data O (base k) txhash (draws k).r1).2)
        (fun k => { ZkR := (round1Data O (base k) txhash (draws k).r1).1.zkR })
        (fun k => round3Data O (draws k).r1) =
      .ok (round4Data O (draws i).rndCommit (finalR O draws)
        (response base ids draws (commonHash G f txhash draws) i)) := by
  have checked : (forRange fun k : Fin n => round4Check O
      (round1Data O (base k) txhash (draws k).r1).2
      { ZkR := (round1Data O (base k) txhash (draws k).r1).1.zkR }
      (round3Data O (draws k).r1)) = .ok fun _ => () :=
    forRange_eq_ok.mpr fun k => round4Check_honest G _ _
  rw [round4Start, getDNodeIDIndex_eq signers, commonHash, ← signers.key_eq i]
  simp only [ok_bind, checked, lambda_eq signers]
  rfl

/-- Round 6 accepts the points of the responses. -/
theorem round6_eq (degree : f.degree < n) (i : Fin n) :
    round6Start O (base i) (round1Data O (base i) txhash (draws i).r1).1
        (round4Data O (draws i).rndCommit (finalR O draws)
          (response base ids draws (commonHash G f txhash draws) i)).1
        (fun k => (round4Data O (draws k).rndCommit (finalR O draws)
          (response base ids draws (commonHash G f txhash draws) k)).2)
        (fun k => { DSB := (round4Data O (draws k).rndCommit (finalR O draws)
          (response base ids draws (commonHash G f txhash draws) k)).1.DSB }) =
      .ok { S := response base ids draws (commonHash G f txhash draws) i } := by
  set h := commonHash G f txhash draws with h_eq
  have pos : 0 < n := i.pos
  have opened : ∀ k, G.point (O.FromBytes (upper (round4Data O (draws k).rndCommit (finalR O draws)
      (response base ids draws h k)).1.DSB)) = some (G.mult (value (response base ids draws h k))) := by
    intro k
    rw [round4Data, Commit, upper_append, G.toBytes_eq (G.point_base (reduced_response base ids draws h k))]
    exact G.point_fromBytes _
  have checked : (forRange fun k : Fin n => require (O.Verify
      (round4Data O (draws k).rndCommit (finalR O draws) (response base ids draws h k)).2.CSB
      (round4Data O (draws k).rndCommit (finalR O draws) (response base ids draws h k)).1.DSB)
      "smpc back-end internal error:commitment(CSB) not pass") = .ok fun _ => () :=
    forRange_eq_ok.mpr fun k => require_eq_ok.mpr (O.verify_commit _ _)
  have hash : messageHash O (round4Data O (draws i).rndCommit (finalR O draws)
      (response base ids draws h i)).1.FinalRBytes (round1Data O (base i) txhash (draws i).r1).1.pkfinal
      (round1Data O (base i) txhash (draws i).r1).1.message = h := by
    rw [h_eq, commonHash, ← signers.key_eq i]
    rfl
  have calculated := G.point_add (point_hashedKey G draws f txhash) (point_finalR G draws pos)
  have balanced : G.mult (value h * f.eval 0) + G.mult (∑ i, (value (nonce (draws i).r1) : ZMod L)) =
      ∑ k, G.mult (value (response base ids draws h k)) := by
    rw [← map_add, ← sum_responses G signers draws degree, map_sum]
  rw [← h_eq, balanced, ← signers.key_eq i] at calculated
  have same := (G.toBytes_eq (G.point_sumRange pos opened)).trans (G.toBytes_eq calculated).symm
  rw [round6Start, getDNodeIDIndex_eq signers]
  simp only [ok_bind, checked, hash]
  exact bind_eq_ok.mpr ⟨(), require_eq_ok.mpr (decide_eq_true same), rfl⟩

/-- The sum of the responses satisfies the equation. -/
theorem signature_equation (degree : f.degree < n) {h : Bytes32} :
    value ((List.ofFn (response base ids draws h)).foldl ScAdd scZero) • G.B =
      G.mult (∑ i, (value (nonce (draws i).r1) : ZMod L)) + value h • G.mult (f.eval 0) := by
  rw [← G.mult_natCast, G.nsmul_mult, ← map_add, cast_foldl_ScAdd, value_scZero, Nat.cast_zero,
    zero_add, map_ofFn, sum_ofFn, add_comm, ← sum_responses G signers draws degree]
  rfl

variable {verify : VerifyRoutine}

/-- Round 7 accepts the signature. -/
theorem round7_eq (accepts : Accepts G verify) (degree : f.degree < n) (i : Fin n) :
    round7Start O verify (round1Data O (base i) txhash (draws i).r1).1
        (round4Data O (draws i).rndCommit (finalR O draws)
          (response base ids draws (commonHash G f txhash draws) i)).1
        (fun k => { S := response base ids draws (commonHash G f txhash draws) k }) =
      .ok { Rx := finalR O draws
            Sx := (List.ofFn (response base ids draws (commonHash G f txhash draws))).foldl ScAdd
              scZero } := by
  set h := commonHash G f txhash draws with h_eq
  set s := (List.ofFn (response base ids draws h)).foldl ScAdd scZero with s_eq
  have pos : 0 < n := i.pos
  have s_reduced : Reduced s := reduced_foldl_ScAdd _ reduced_scZero
  have equation : value s • G.B = G.mult (∑ i, (value (nonce (draws i).r1) : ZMod L)) +
      value h • G.mult (f.eval 0) := signature_equation G signers draws degree
  have key := signers.key_eq i
  have hash : messageHash O (finalR O draws) (base i).save.FinalPkBytes (intBytes txhash) = h := by
    rw [h_eq, commonHash, key]
  have verified : EdVerify O (finalR O draws) s (intBytes txhash) (base i).save.FinalPkBytes = true := by
    rw [finalR_eq G draws pos, key, edVerify_iff G _ _ _ s_reduced, ← finalR_eq G draws pos, ← key, hash]
    exact equation
  have accepted : verify (base i).save.FinalPkBytes (intBytes txhash)
      (Fin.append (finalR O draws) s) = true := by
    rw [key, finalR_eq G draws pos]
    refine accepts _ _ _ _ s_reduced ?_
    rw [← finalR_eq G draws pos, ← key, hash]
    exact equation
  simp only [round7Start, eq_ok]
  exact ⟨(), verified, (), accepted, rfl⟩

/-- Honest rounds return, with the same signature at every signer. -/
theorem runSigning_eq (accepts : Accepts G verify) (degree : f.degree < n) :
    ∃ tr, runSigning O verify base draws = .ok tr ∧
      ∀ i, tr.signature i = { Rx := finalR O draws, Sx := (List.ofFn (response base ids draws
        (commonHash G f txhash draws))).foldl ScAdd scZero } := by
  simp only [runSigning, eq_ok, forRange_eq_ok]
  refine ⟨_, ⟨_, round1_eq G signers draws,
    fun i => { ZkR := (round1Data O (base i) txhash (draws i).r1).1.zkR }, fun i => ?_,
    fun i => round3Data O (draws i).r1, fun i => ?_, _, round4_eq G signers draws,
    fun k => { DSB := (round4Data O (draws k).rndCommit (finalR O draws)
      (response base ids draws (commonHash G f txhash draws) k)).1.DSB }, fun i => ?_, _,
    round6_eq G signers draws degree, _, round7_eq G signers draws accepts degree, rfl⟩, fun _ => rfl⟩
  · rw [round2Start, getDNodeIDIndex_eq signers]
    rfl
  · rw [round3Start, getDNodeIDIndex_eq signers]
    rfl
  · rw [round5Start, getDNodeIDIndex_eq signers]
    rfl

theorem runSigning_satisfies (accepts : Accepts G verify) (pos : 0 < n) (degree : f.degree < n) :
    ∃ tr, runSigning O verify base draws = .ok tr ∧ ∃ (R : E) (s : Bytes32), Reduced s ∧
      (∀ i, tr.signature i = { Rx := G.encode R, Sx := s }) ∧
      value s • G.B = R + value (messageHash O (G.encode R) (G.encode (G.mult (f.eval 0)))
        (intBytes txhash)) • G.mult (f.eval 0) := by
  have R_eq := finalR_eq G draws pos
  obtain ⟨tr, returned, signed⟩ := runSigning_eq G signers draws accepts degree
  refine ⟨tr, returned, G.mult (∑ i, (value (nonce (draws i).r1) : ZMod L)),
    (List.ofFn (response base ids draws (commonHash G f txhash draws))).foldl ScAdd scZero,
    reduced_foldl_ScAdd _ reduced_scZero, ?_, ?_⟩
  · rw [← R_eq]
    exact signed
  · rw [← R_eq]
    exact signature_equation G signers draws degree

/-- **Honest signing.**  Every check passes, and the signature satisfies the equation for the bytes
of the integer. -/
theorem edSigning_correct {verify : VerifyRoutine} (accepts : Accepts G verify) {t : ℕ} (pos : 0 < t)
    (degree : f.degree < t) (t_le : t ≤ n) :
    ∃ tr, runSigning O verify base draws = .ok tr ∧ ∃ (R : E) (s : Bytes32),
      (∀ i, tr.signature i = { Rx := G.encode R, Sx := s }) ∧
      value s • G.B = R + value (messageHash O (G.encode R) (G.encode (G.mult (f.eval 0)))
        (intBytes txhash)) • G.mult (f.eval 0) := by
  have below : f.degree < n := degree.trans_le (by exact_mod_cast t_le)
  obtain ⟨tr, returned, R, s, -, signed, equation⟩ :=
    runSigning_satisfies G signers draws accepts (pos.trans_le t_le) below
  exact ⟨tr, returned, R, s, signed, equation⟩

end

/-! ## Byte strings that no integer has -/

/-- A hash that tells whether the bytes after the two points start with zero. -/
def markHash (written : List UInt8) : Bytes64 :=
  if (written.drop 64).head? = some 0 then copy (32 + 32) scOne else fun _ => 0

theorem value_markHash (R P : Bytes32) (message : List UInt8) :
    value (messageHash (residueOps markHash) R P message) =
      if message.head? = some 0 then 1 else 0 := by
  have cut : (slice R ++ slice P ++ message).drop 64 = message := by
    rw [drop_append_of_le_length (by simp [slice]), drop_eq_nil_of_le (by simp [slice]),
      nil_append]
  have hashed : (residueOps markHash).sha512 (slice R ++ slice P ++ message) =
      if message.head? = some 0 then copy (32 + 32) scOne else fun _ => 0 := by
    rw [← cut]
    rfl
  have one_lt := prime_L.one_lt
  rw [messageHash, hashed]
  split
  · rw [ScReduce, value_copy (by norm_num), value_scOne, Nat.mod_eq_of_lt one_lt, value_bytes_of_lt_L one_lt]
  · rw [ScReduce, value_zero, Nat.zero_mod, value_bytes_of_lt_L prime_L.pos]

/-- Two signers with the ids 1 and 2 and shares of the constant polynomial 1. -/
def pairBase (txhash : ℤ) (i : Fin 2) : SignBase 2 where
  save := { Sk := scZero, Pk := scZero, TSk := scOne, FinalPkBytes := scOne, IDs := [1, 2],
            CurDNodeID := (i.val + 1 : ℕ) }
  idsign k := (k.val + 1 : ℕ)
  kgid := hexEncode (itoa (i.val + 1))
  txhash := some txhash

theorem signers_pairBase (sha512 : List UInt8 → Bytes64) (txhash : ℤ) :
    Signers (residueModel sha512) (pairBase txhash) (fun i => i.val + 1) 1 txhash where
  range i := by omega
  distinct _ _ same := Fin.ext (Nat.succ_injective same)
  idsign_eq _ _ := rfl
  kgid_eq _ := rfl
  curDNodeID_eq _ := rfl
  share_eq _ := by simp [pairBase]
  key_eq _ := by
    rw [eval_one]
    exact (encode_mult_one sha512).symm
  txhash_eq _ := rfl

/-- `EdVerify` as the imported routine. -/
def ownVerify (O : EdOps) : VerifyRoutine := fun pk message sig => EdVerify O (lower sig) (upper sig) message pk

def zeroDraws : SignerDraws where
  r1 := { r := scZero, rndCommit := scZero, rndProof := scZero }
  rndCommit := scZero

theorem degree_one_lt : (1 : (ZMod L)[X]).degree < (2 : ℕ) := by
  rw [degree_one]
  norm_num

theorem edSigning_correct_pair :
    ∃ tr, runSigning (residueOps markHash) (ownVerify (residueOps markHash))
        (pairBase 256) (fun _ => zeroDraws) = .ok tr ∧ ∃ (R : ZMod L) (s : Bytes32),
      (∀ i, tr.signature i = { Rx := (residueModel markHash).encode R, Sx := s }) := by
  obtain ⟨tr, returned, R, s, signed, -⟩ :=
    edSigning_correct (residueModel markHash) (signers_pairBase markHash 256)
      (fun _ => zeroDraws) (accepts_edVerify _) (by norm_num) degree_one_lt le_rfl
  exact ⟨tr, returned, R, s, signed⟩

/-- The pair signs, and the signature is for no byte string that starts with zero. -/
theorem pair_signs (txhash : ℤ) :
    ∃ tr, runSigning (residueOps markHash) (ownVerify (residueOps markHash))
        (pairBase txhash) (fun _ => zeroDraws) = .ok tr ∧
      ∃ (R : ZMod L) (s : Bytes32), Reduced s ∧
        (∀ i, tr.signature i = { Rx := (residueModel markHash).encode R, Sx := s }) ∧
        ∀ message : List UInt8, message.head? = some 0 → value s • (residueModel markHash).B ≠
          R + value (messageHash (residueOps markHash) ((residueModel markHash).encode R)
            scOne message) • (residueModel markHash).mult 1 := by
  obtain ⟨tr, returned, R, s, reduced, signed, equation⟩ :=
    runSigning_satisfies (residueModel markHash) (signers_pairBase markHash txhash)
      (fun _ => zeroDraws) (accepts_edVerify _) (by norm_num) degree_one_lt
  refine ⟨tr, returned, R, s, reduced, signed, fun message first wrong => ?_⟩
  rw [eval_one, encode_mult_one, value_markHash, if_neg (head_intBytes txhash)] at equation
  rw [value_markHash, if_pos first, equation] at wrong
  have zero : (residueModel markHash).mult 1 = (residueModel markHash).mult 0 := by
    rw [map_zero]
    simpa using wrong.symm
  exact one_ne_zero ((residueModel markHash).mult_injective zero)

/-- The byte string `[0]` is signed by no run of two honest signers, whatever the integer is. -/
theorem message_zero_unsigned :
    (∀ txhash, Signers (residueModel markHash) (pairBase txhash) (fun i => i.val + 1) 1 txhash) ∧
    ¬ ∃ (txhash : ℤ) (tr : SigningTranscript 2),
      runSigning (residueOps markHash) (ownVerify (residueOps markHash))
        (pairBase txhash) (fun _ => zeroDraws) = .ok tr ∧
      ∀ i, ∃ (R : ZMod L) (s : Bytes32),
        tr.signature i = { Rx := (residueModel markHash).encode R, Sx := s } ∧
        value s • (residueModel markHash).B =
          R + value (messageHash (residueOps markHash) ((residueModel markHash).encode R)
            scOne [0]) • (residueModel markHash).mult 1 := by
  refine ⟨signers_pairBase markHash, ?_⟩
  rintro ⟨txhash, tr, returned, all⟩
  obtain ⟨tr', returned', R', s', -, signed, unsatisfied⟩ := pair_signs txhash
  obtain rfl : tr = tr' := Except.ok.inj (returned.symm.trans returned')
  obtain ⟨R, s, sig_eq, equation⟩ := all 0
  have same := sig_eq.symm.trans (signed 0)
  obtain rfl := (residueModel markHash).encode_injective (congrArg EdSignData.Rx same)
  obtain rfl : s = s' := congrArg EdSignData.Sx same
  exact unsatisfied [0] rfl equation

end ThresholdDsa.Eddsa.Signing
