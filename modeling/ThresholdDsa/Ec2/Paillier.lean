/-
# The Paillier scheme of `ec2/paillier.go`

Key generation from two primes, `Encrypt`, `Decrypt`, `HomoAdd` and `HomoMul` as
the package computes them, with the random draws as arguments.  `Ciphers M c m`
says that the integer `c` is a reduced ciphertext of `m` under the key of the
modulus `M`; the four operations are read through it:

* `encrypt_ciphers`, `homoMul_ciphers`, `homoAdd_ciphers` produce ciphertexts;
* `decrypt_of_ciphers` returns the plaintext modulo `n`.

`Encrypt` refuses what is greater than `n`.  `decrypt_encrypt_iff`: of what it takes,
exactly the residues come back; `n` and negative numbers do not
(`accepted_not_returned`).
-/
import ThresholdDsa.Lib.BigInt
import ThresholdDsa.Lib.Outcome
import ThresholdDsa.Lib.PaillierArith

namespace ThresholdDsa.Ec2

open BigInt Outcome Option

structure PublicKey where
  (N G N2 : ℤ)
  deriving DecidableEq, Repr

structure PrivateKey extends PublicKey where
  (L U : ℤ)
  deriving DecidableEq, Repr

/-- The key pair of two primes taken from the safe-prime channel. -/
def GenerateKeyPair (p q : ℤ) : Option (PublicKey × PrivateKey) :=
  let n := p * q
  let l := (p - 1) * (q - 1)
  (modInverse l n).map fun u =>
    let publicKey : PublicKey := { N := n, G := n + 1, N2 := n * n }
    (publicKey, { toPublicKey := publicKey, L := l, U := u })

theorem generateKeyPair_fields {p q : ℤ} {pk : PublicKey} {sk : PrivateKey}
    (generated : GenerateKeyPair p q = some (pk, sk)) :
    pk.N = p * q ∧ sk.N = p * q ∧ sk.L = (p - 1) * (q - 1) := by
  simp only [GenerateKeyPair, map_eq_some_iff, Prod.mk.injEq] at generated
  obtain ⟨u, -, rfl, rfl⟩ := generated
  exact ⟨rfl, rfl, rfl⟩

/-- `r` is the draw `GetRandomIntFromZnStar(N)`. -/
def PublicKey.Encrypt (pk : PublicKey) (m r : ℤ) : Outcome ℤ := do
  require (m ≤ pk.N) "[ERROR]: message is too long"
  let Gm ← deref (exp pk.G m pk.N2)
  let RN ← deref (exp r pk.N pk.N2)
  pure (Gm * RN % pk.N2)

def PrivateKey.Decrypt (sk : PrivateKey) (cipher : ℤ) : Outcome ℤ := do
  require (cipher ≤ sk.N2) "[ERROR]: message is too long"
  let cL ← deref (exp cipher sk.L sk.N2)
  pure ((cL - 1) / sk.N * sk.U % sk.N)

def PublicKey.HomoAdd (pk : PublicKey) (c1 c2 : ℤ) : ℤ := c1 * c2 % pk.N2

def PublicKey.HomoMul (pk : PublicKey) (cipher k : ℤ) : Option ℤ := exp cipher k pk.N2

/-! ## Keys of a modulus -/

section

variable (M : PaillierModulus)

def publicKeyOf : PublicKey := { N := M.n, G := M.n + 1, N2 := M.n * M.n }

def privateKeyOf : PrivateKey :=
  { toPublicKey := publicKeyOf M, L := M.phi, U := (modInverse M.phi M.n).getD 0 }

theorem modInverse_phi : modInverse M.phi M.n = some (privateKeyOf M).U := by
  have returned : (modInverse M.phi M.n).isSome := by
    rw [modInverse_isSome_iff (by exact_mod_cast M.n_pos)]
    exact M.coprime
  obtain ⟨u, hu⟩ := isSome_iff_exists.mp returned
  rw [privateKeyOf, hu, getD_some]

/-- `GenerateKeyPair` on the two primes gives these keys. -/
theorem generateKeyPair_eq :
    GenerateKeyPair M.p M.q = some (publicKeyOf M, privateKeyOf M) := by
  have pred_mul : ((M.p : ℤ) - 1) * (M.q - 1) = M.phi := by
    rw [PaillierModulus.phi, Nat.cast_mul, Nat.cast_pred M.p_prime.pos,
      Nat.cast_pred M.q_prime.pos]
  have mul : (M.p : ℤ) * M.q = M.n := by rw [PaillierModulus.n, Nat.cast_mul]
  simp only [GenerateKeyPair, pred_mul, mul, modInverse_phi, map_some]
  rfl

end

/-! ## Ciphertexts -/

variable {M : PaillierModulus}

/-- `c` is a reduced ciphertext of `m` for the modulus `M`. -/
def Ciphers (M : PaillierModulus) (c : ℤ) (m : ℕ) : Prop :=
  0 ≤ c ∧ c < (M.n : ℤ) ^ 2 ∧ ∃ ρ : (ZMod (M.n ^ 2))ˣ,
    (c : ZMod (M.n ^ 2)) = (1 + M.n : ZMod (M.n ^ 2)) ^ m * (ρ : ZMod (M.n ^ 2)) ^ M.n

theorem N2_eq : (publicKeyOf M).N2 = ((M.n ^ 2 : ℕ) : ℤ) := by
  simp [publicKeyOf, sq]

theorem emod_N2_range (x : ℤ) :
    0 ≤ x % (publicKeyOf M).N2 ∧ x % (publicKeyOf M).N2 < (M.n : ℤ) ^ 2 := by
  have pos : (0 : ℤ) < ((M.n ^ 2 : ℕ) : ℤ) := by exact_mod_cast M.sq_pos
  rw [N2_eq]
  exact ⟨Int.emod_nonneg _ pos.ne', by exact_mod_cast Int.emod_lt_of_pos x pos⟩

/-- A draw from `Zn*` is a unit modulo `n ^ 2`. -/
theorem exists_unit_of_coprime {r : ℤ} (coprime : Int.gcd r M.n = 1) :
    ∃ ρ : (ZMod (M.n ^ 2))ˣ, (r : ZMod (M.n ^ 2)) = ρ := by
  have square : IsCoprime ((M.n ^ 2 : ℕ) : ℤ) r := by
    exact (Int.isCoprime_iff_gcd_eq_one.mpr coprime).symm.pow_left
  exact ((ZMod.coe_int_isUnit_iff_isCoprime r (M.n ^ 2)).mpr square).imp fun _ h => h.symm

theorem encrypt_ciphers {m : ℕ} {r c : ℤ} (coprime : Int.gcd r M.n = 1)
    (encrypted : (publicKeyOf M).Encrypt m r = .ok c) : Ciphers M c m := by
  simp only [PublicKey.Encrypt, eq_ok] at encrypted
  obtain ⟨-, -, Gm, hG, RN, hR, rfl⟩ := encrypted
  obtain ⟨ρ, hρ⟩ := exists_unit_of_coprime coprime
  rw [exp_natCast] at hG
  rw [show (publicKeyOf M).N = (M.n : ℤ) from rfl, exp_natCast] at hR
  obtain rfl := Option.some.inj hG
  obtain rfl := Option.some.inj hR
  refine ⟨(emod_N2_range _).1, (emod_N2_range _).2, ρ, ?_⟩
  rw [N2_eq]
  simp only [ZMod.intCast_mod, Int.cast_mul, Int.cast_pow, hρ]
  simp [publicKeyOf, add_comm]

theorem homoAdd_ciphers {c₁ c₂ : ℤ} {m₁ m₂ : ℕ} (h₁ : Ciphers M c₁ m₁) (h₂ : Ciphers M c₂ m₂) :
    Ciphers M ((publicKeyOf M).HomoAdd c₁ c₂) (m₁ + m₂) := by
  obtain ⟨-, -, ρ, hρ⟩ := h₁
  obtain ⟨-, -, σ, hσ⟩ := h₂
  refine ⟨(emod_N2_range _).1, (emod_N2_range _).2, ρ * σ, ?_⟩
  rw [PublicKey.HomoAdd, N2_eq, ZMod.intCast_mod, Int.cast_mul, hρ, hσ, Units.val_mul]
  ring

theorem homoMul_ciphers {c c' : ℤ} {m k : ℕ} (h : Ciphers M c m)
    (power : (publicKeyOf M).HomoMul c k = some c') : Ciphers M c' (m * k) := by
  obtain ⟨-, -, ρ, hρ⟩ := h
  rw [PublicKey.HomoMul, exp_natCast] at power
  obtain rfl := Option.some.inj power
  refine ⟨(emod_N2_range _).1, (emod_N2_range _).2, ρ ^ k, ?_⟩
  rw [N2_eq, ZMod.intCast_mod, Int.cast_pow, hρ, Units.val_pow_eq_pow_val]
  ring

/-- **Decryption returns the plaintext** modulo `n`. -/
theorem decrypt_of_ciphers {c : ℤ} {m : ℕ} (h : Ciphers M c m) :
    (privateKeyOf M).Decrypt c = .ok ((m : ℤ) % M.n) := by
  obtain ⟨nonneg, small, ρ, hρ⟩ := h
  have N2_sk : (privateKeyOf M).N2 = ((M.n ^ 2 : ℕ) : ℤ) := N2_eq
  have short : (decide (c ≤ (privateKeyOf M).N2)) = true := by
    rw [N2_sk, decide_eq_true_eq]
    exact small.le
  have power : exp c (privateKeyOf M).L (privateKeyOf M).N2 =
      some (c ^ M.phi % (privateKeyOf M).N2) := exp_natCast _ _ _
  simp only [PrivateKey.Decrypt, eq_ok]
  refine ⟨(), short, _, power, ?_⟩
  obtain ⟨-, -, inverse⟩ := modInverse_spec (by exact_mod_cast M.n_pos) (modInverse_phi M)
  have range := emod_N2_range (M := M) (c ^ M.phi)
  refine M.decrypt_eq range.1 range.2 ?_ inverse
  rw [N2_sk, ZMod.intCast_mod, Int.cast_pow, hρ, M.cipher_pow_phi]

/-! ## Encryption and decryption -/

section

variable {pk : PublicKey} {sk : PrivateKey}

theorem keys_eq (generated : GenerateKeyPair M.p M.q = some (pk, sk)) :
    pk = publicKeyOf M ∧ sk = privateKeyOf M := by
  rw [generateKeyPair_eq, Option.some.injEq, Prod.mk.injEq] at generated
  exact ⟨generated.1.symm, generated.2.symm⟩

/-- A message that is not negative and not greater than the modulus is encrypted. -/
theorem encrypt_returns {m r : ℤ} (nonneg : 0 ≤ m) (le : m ≤ M.n) :
    ∃ c, (publicKeyOf M).Encrypt m r = .ok c := by
  obtain ⟨m, rfl⟩ := Int.eq_ofNat_of_zero_le nonneg
  have message := exp_natCast (publicKeyOf M).G (publicKeyOf M).N2 m
  have mask := exp_natCast r (publicKeyOf M).N2 M.n
  simp only [PublicKey.Encrypt, eq_ok]
  exact ⟨_, (), decide_eq_true le, _, message, _, mask, rfl⟩

/-- What `Decrypt` returns is reduced. -/
theorem decrypt_range {c m : ℤ} (decrypted : (privateKeyOf M).Decrypt c = .ok m) :
    0 ≤ m ∧ m < M.n := by
  have pos : (0 : ℤ) < M.n := by exact_mod_cast M.n_pos
  simp only [PrivateKey.Decrypt, eq_ok] at decrypted
  obtain ⟨-, -, cL, -, rfl⟩ := decrypted
  exact ⟨Int.emod_nonneg _ pos.ne', Int.emod_lt_of_pos _ pos⟩

end

/-- A message that `Encrypt` accepts comes back exactly if it is one of the residues.  Also the
modulus itself and all negative numbers are accepted. -/
theorem decrypt_encrypt_iff (M : PaillierModulus) (pk : PublicKey) (sk : PrivateKey)
    (generated : GenerateKeyPair M.p M.q = some (pk, sk)) (r : ℤ) (unit : Int.gcd r M.n = 1)
    (m c : ℤ) (encrypted : pk.Encrypt m r = .ok c) : sk.Decrypt c = .ok m ↔ 0 ≤ m ∧ m < M.n := by
  obtain ⟨rfl, rfl⟩ := keys_eq generated
  constructor
  · exact decrypt_range
  · rintro ⟨nonneg, lt⟩
    rw [← Int.toNat_of_nonneg nonneg] at encrypted
    rw [decrypt_of_ciphers (encrypt_ciphers unit encrypted), Int.toNat_of_nonneg nonneg,
      Int.emod_eq_of_lt nonneg lt]

namespace Small

theorem three_prime : Nat.Prime 3 := by norm_num

theorem five_prime : Nat.Prime 5 := by norm_num

theorem three_ne_five : 3 ≠ 5 := by decide

theorem eight_coprime : ((3 - 1) * (5 - 1)).Coprime (3 * 5) := by decide

def modulus : PaillierModulus := ⟨3, 5, three_prime, five_prime, three_ne_five, eight_coprime⟩

theorem decrypt_encrypt_iff_seven :
    ∃ c, (publicKeyOf modulus).Encrypt 7 2 = .ok c ∧ (privateKeyOf modulus).Decrypt c = .ok 7 := by
  obtain ⟨c, encrypted⟩ : ∃ c, (publicKeyOf modulus).Encrypt 7 2 = .ok c :=
    encrypt_returns (by decide) (by decide)
  exact ⟨c, encrypted, (decrypt_encrypt_iff modulus _ _ (generateKeyPair_eq modulus) 2 (by decide) 7 c
    encrypted).mpr (by decide)⟩

/-- The modulus decrypts to 0, and -1 to 14. -/
theorem accepted_not_returned :
    GenerateKeyPair 3 5 = some (publicKeyOf modulus, privateKeyOf modulus) ∧
    (∃ c, (publicKeyOf modulus).Encrypt 15 2 = .ok c ∧ (privateKeyOf modulus).Decrypt c = .ok 0) ∧
    ∃ c, (publicKeyOf modulus).Encrypt (-1) 2 = .ok c ∧ (privateKeyOf modulus).Decrypt c = .ok 14 := by
  refine ⟨generateKeyPair_eq modulus, ⟨_, rfl, ?_⟩, ⟨_, rfl, ?_⟩⟩ <;> decide +kernel

end Small

end ThresholdDsa.Ec2
