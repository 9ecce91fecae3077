/-
# An honest resharing does not end

The old parties weight their shares, deal them anew, and every party of the new group
adds up what it gets: with the places of the parties found, that keeps the key.  But the
places are not found.  In round 2 a dealer looks for its own place with its id text read
as a decimal number, which is never its id (`place_ne`).  So either the search fails, or
the dealer takes the place of another party for its own: it keeps the share of that
party, which then has an empty slot and cannot start round 3.

`reshare_never_ends`: whatever the ids, the shares and the draws, rounds 1 to 3 do not
give every party of the new group its share.
-/
import ThresholdDsa.Ecdsa.ReshareRounds

namespace ThresholdDsa.Ecdsa.Reshare

open BigInt Outcome Ec2 GoText Function List SlotStore

variable {m n T : ℕ}

/-! ## Ids -/

theorem uidOf_idTextOf (id : ℤ) : Keygen.uidOf (idTextOf id) = .ok id := by
  have bytes : ∀ c ∈ intText id, c.toNat < 256 := by
    intro c mem
    unfold intText at mem
    have digits : ∀ c ∈ itoa id.natAbs, c.toNat < 256 := fun c mem =>
      (UInt32.lt_iff_toNat_lt.mp (lt_A_of_isDigit (itoa_isDigit mem))).trans (by decide)
    split at mem
    · rcases mem_cons.mp mem with rfl | mem
      · decide
      · exact digits c mem
    · exact digits c mem
  have decoded : hexDecode (idTextOf id) = some (intText id) := hexDecode_hexEncode bytes
  simp [Keygen.uidOf, decoded, orError, setString10_intText, ok_bind]

/-- `Save.IDs` of every party holds the ids of the new group. -/
theorem getIDs_base (r : Resharing m n) (j : Fin n) :
    GetIDs (r.base j).reshareRound0Messages = .ok (List.ofFn r.ids) := by
  have arrived : (r.base j).reshareRound0Messages.Perm
      (List.ofFn fun k => idTextOf (r.ids k)) := by
    rw [List.ofFn_eq_map]
    exact (r.complete j).map _
  exact Keygen.KeygenBase.getIDs_of_perm (b := ⟨[], 0, _⟩) (fun k => uidOf_idTextOf (r.ids k))
    r.sorted arrived

/-! ## What the dealers send -/

variable {P : Primitives} {r : Resharing m n}

/-- A dealer takes the place of another party for its own, and sends that party nothing. -/
theorem deliver_curIndex {i : Fin m} {t1 : Temp1} {d : Dealt T n}
    (started : round2Start P T n (r.base (r.own i)) t1 = .ok d) :
    d.curIndex ≠ r.own i ∧ d.deliver (r.own i) d.curIndex = none := by
  simp only [round2Start, getIDs_base, eq_ok, Except.ok.injEq, exists_eq_left'] at started
  obtain ⟨-, -, -, -, -, -, id, read, c, found, -, -, -, -, rfl⟩ := started
  have other : c ≠ r.own i := place_ne read found
  refine ⟨other, ?_⟩
  rw [Dealt.deliver, if_neg other, if_pos rfl]

/-- A slot that a dealer fills has the messages of some dealer. -/
theorem inSlot_slot {α : Type} (slot : Fin m → Fin T) (i : Fin m) :
    ∃ dealer, ∀ msgs : Fin m → α, inSlot slot msgs (slot i) = some (msgs dealer) := by
  have filled : ((List.finRange m).find? fun k => slot k = slot i).isSome := by
    rw [find?_isSome]
    exact ⟨i, mem_finRange i, decide_eq_true rfl⟩
  obtain ⟨dealer, found⟩ := Option.isSome_iff_exists.mp filled
  exact ⟨dealer, fun msgs => by rw [inSlot, found]; rfl⟩

/-- A party with a slot that has no share returns no result in round 3. -/
theorem round3Start_of_missing {IDs : List ℤ} {dnodeid : List Char} {keys : PaillierKeys}
    {msgs1 : Fin T → Option ReRound1Message} {msgs2 : Fin T → Option ReRound2Message}
    {msgs21 : Fin T → Option ReRound2Message1} {k : Fin T} (missing : msgs2 k = none)
    (out : Saved × ReRound3Message) :
    round3Start P n IDs dnodeid keys msgs1 msgs2 msgs21 ≠ .ok out := by
  intro returned
  simp only [round3Start, eq_ok, forRange_eq_ok] at returned
  obtain ⟨slots, checked, -⟩ := returned
  have check := checked k
  simp [round3Check, missing, orError, eq_ok] at check

/-! ## The run -/

/-- Rounds 1 to 3 give every party of the new group the public key of `x`, and shares of which any
`T` combine to `x`. -/
def KeepsKey {E : Type} [AddCommGroup E] [Module (ZMod P.S.N) E] (C : P.S.Model E) (T : ℕ)
    (r : Resharing m n) (x : ℤ) : Prop :=
  ∃ out, runReshare P T r = .ok out ∧
    (∀ j, (out j).1.Pk = C.xy ((x : ZMod P.S.N) • C.g)) ∧
    ∀ (k : ℕ) (chosen : Fin k → Fin n), Injective chosen → T ≤ k →
      Combine2 P.S (fun a => { ID := r.ids (chosen a), Share := (out (chosen a)).1.SkU1 }) =
        .ok (x % P.S.N)

/-- **No resharing gives every party its share.**  Each dealer fails in round 2 or leaves the party
at some place without a share, whatever the ids, `idreshare`, the old shares, the draws and the
order of arrival. -/
theorem reshare_never_ends {E : Type} [AddCommGroup E] [Module (ZMod P.S.N) E] (C : P.S.Model E)
    (T : ℕ) (r : Resharing m n) (dealers : 0 < m) (x : ℤ) :
    (∀ i t1 d, round2Start P T n (r.base (r.own i)) t1 = .ok d →
      ∃ j, j ≠ r.own i ∧ d.deliver (r.own i) j = none) ∧
    ¬ KeepsKey C T r x := by
  refine ⟨fun i t1 d started => ⟨_, deliver_curIndex started⟩, ?_⟩
  rintro ⟨out, returned, -⟩
  simp only [runReshare, bind_eq_ok] at returned
  obtain ⟨r1, -, r2, round2, IDs, -, round3⟩ := returned
  obtain ⟨dealer, found⟩ := inSlot_slot (fun i => (r2 i).slot) ⟨0, dealers⟩
  -- the party whose place the dealer takes for its own gets nothing from it
  obtain ⟨-, missing⟩ := deliver_curIndex (forRange_eq_ok.mp round2 dealer)
  refine round3Start_of_missing (k := (r2 ⟨0, dealers⟩).slot) ?_ _
    (forRange_eq_ok.mp round3 (r2 dealer).curIndex)
  rw [found, missing]
  rfl

/-! ## Small resharings

The first two of three parties hold values of `5 + 2 X`. -/

/-- The parties with the given ids; the first two are the old ones. -/
def small (ids : Fin 3 → ℤ) (sorted : Monotone ids) : Resharing 2 3 where
  ids := ids
  sorted := sorted
  arrival _ := List.finRange 3
  complete _ := List.Perm.refl _
  keys _ := .fresh 3 5
  old i := { SkU1 := 5 + 2 * ids i.castSucc, rnds := fun _ => ![3, 1] i, rnd := 1 }
  own := Fin.castSucc
  idreshare := [ids 0, ids 1]

def nearIds : Resharing 2 3 := small ![1, 2, 3] (by decide)

def farIds : Resharing 2 3 := small ![2, 32, 3332] (by decide)

def widePrimitives : Primitives := { smallPrimitives with S := zmodCurve 3343 }

/-- The list of the old ids and the positions in it are right, and still: with the ids 1, 2, 3 no
dealer finds a place, and with 2, 32, 3332 each takes the place of the next party, which lacks a
share. -/
theorem reshare_small_fails :
    (∀ i : Fin 2,
      GetDNodeIDIndex nearIds.idreshare (nearIds.base (nearIds.own i)).dnodeid = .ok i.val ∧
      (nearIds.old i).SkU1 = 5 + 2 * nearIds.ids (nearIds.own i)) ∧
    runReshare smallPrimitives 2 nearIds = .error (.error "get current node index fail") ∧
    runReshare widePrimitives 2 farIds = .error (.error "round.Start get round2 msg fail") := by
  decide +kernel

theorem reshare_never_ends_near :
    0 < 2 ∧ ¬ KeepsKey (P := smallPrimitives) (zmodModel 13) 2 nearIds 5 :=
  ⟨by decide, (reshare_never_ends (P := smallPrimitives) (zmodModel 13) 2 nearIds (by decide) 5).2⟩

end ThresholdDsa.Ecdsa.Reshare
