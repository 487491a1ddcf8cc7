import Mathlib.Data.Nat.Prime.Basic
import Mathlib.NumberTheory.LucasPrimality
import TxScript.Curve.Field

/-!
# The two moduli are prime

Powers modulo a number are powers followed by one remainder. That carries the primality test of
Lucas: a base whose power to p − 1 is one, and whose powers to the proper quotients (p − 1) / q are
not, has order p − 1. The primes q come from the same test, so a chain of them reaches both moduli.
-/

namespace TxScript.Curve

theorem powerMod_eq (m a exponent : Nat) : powerMod m a exponent = a ^ exponent % m := by
  induction exponent using powerMod.induct with
  | case1 => simp [powerMod]
  | case2 exponent hexp ih =>
      have hsplit : exponent = exponent / 16 * 16 + exponent % 16 := by omega
      rw [powerMod, if_neg hexp, ih]
      show (a ^ (exponent / 16) % m) ^ 16 * a ^ (exponent % 16) % m = _
      conv_rhs => rw [hsplit, Nat.pow_add, Nat.pow_mul]
      rw [Nat.mul_mod, ← Nat.pow_mod, ← Nat.mul_mod]

/-- Trial division, for the primes below 600². -/
def smallPrime (q : Nat) : Bool :=
  decide (2 ≤ q ∧ q < 600 * 600) &&
    (List.range 600).all fun d => decide (d < 2 ∨ q ≤ d ∨ q % d ≠ 0)

theorem prime_of_smallPrime {q : Nat} (h : smallPrime q = true) : q.Prime := by
  unfold smallPrime at h
  simp only [Bool.and_eq_true, decide_eq_true_eq, List.all_eq_true, List.mem_range] at h
  rcases h with ⟨⟨htwo, hlt⟩, htrial⟩
  by_contra hcomposite
  have hsq : q.minFac ^ 2 ≤ q := Nat.minFac_sq_le_self (by omega) hcomposite
  have hfactor : q.minFac.Prime := Nat.minFac_prime (by omega)
  have hbound : q.minFac < 600 := by
    by_contra hge
    have := Nat.pow_le_pow_left (Nat.le_of_not_lt hge) 2
    omega
  rcases htrial q.minFac hbound with hsmall | hlarge | hdvd
  · have := hfactor.two_le
    omega
  · have := (Nat.not_prime_iff_minFac_lt htwo).1 hcomposite
    omega
  · exact hdvd (Nat.mod_eq_zero_of_dvd q.minFac_dvd)

/-- One link of a chain of primes: a number, a base of full order modulo it, and the prime factors
of the number before it. -/
structure LucasLink where
  number : Nat
  base : Nat
  factors : List Nat

namespace LucasLink

/-- The factors are small primes or primes found before. -/
def passes (link : LucasLink) (known : List Nat) : Bool :=
  decide (link.factors.foldr Nat.mul 1 = link.number - 1)
    && decide (1 < link.number)
    && decide (powerMod link.number link.base (link.number - 1) = 1)
    && link.factors.all fun q =>
      (known.contains q || smallPrime q)
        && decide (powerMod link.number link.base ((link.number - 1) / q) ≠ 1)

/-- Each link passes over the numbers behind it. -/
def chainPasses : List LucasLink → Bool
  | [] => true
  | link :: chain => link.passes (chain.map number) && chainPasses chain

theorem cast_powerMod (m a exponent : Nat) :
    ((powerMod m a exponent : Nat) : ZMod m) = (a : ZMod m) ^ exponent := by
  rw [powerMod_eq, ZMod.natCast_mod, Nat.cast_pow]

theorem power_eq_one_iff {m : Nat} (hm : 1 < m) (a exponent : Nat) :
    (a : ZMod m) ^ exponent = 1 ↔ powerMod m a exponent = 1 := by
  have hlt : powerMod m a exponent < m := powerMod_lt (by omega) a exponent
  rw [← cast_powerMod, ← Nat.cast_one, ZMod.natCast_eq_natCast_iff']
  rw [Nat.mod_eq_of_lt hlt, Nat.mod_eq_of_lt hm]

theorem mem_of_prime_dvd {q : Nat} (hq : q.Prime) {factors : List Nat}
    (hprime : ∀ r ∈ factors, r.Prime) (hdvd : q ∣ factors.foldr Nat.mul 1) : q ∈ factors := by
  rcases (Prime.dvd_prod_iff hq.prime).1 hdvd with ⟨r, hr, hqr⟩
  have heq : q = r := (Nat.prime_dvd_prime_iff_eq hq (hprime r hr)).1 hqr
  rwa [heq]

theorem prime_of_passes {link : LucasLink} {known : List Nat} (hknown : ∀ q ∈ known, q.Prime)
    (h : link.passes known = true) : link.number.Prime := by
  unfold passes at h
  simp only [Bool.and_eq_true, decide_eq_true_eq, List.all_eq_true, Bool.or_eq_true,
    List.contains_iff_mem] at h
  rcases h with ⟨⟨⟨hprod, hlt⟩, hfermat⟩, hfactors⟩
  have hprime : ∀ q ∈ link.factors, q.Prime := fun q hq =>
    (hfactors q hq).1.elim (hknown q) prime_of_smallPrime
  apply lucas_primality link.number (link.base : ZMod link.number)
  · exact (power_eq_one_iff hlt _ _).2 hfermat
  · intro q hq hdvd
    have hmem : q ∈ link.factors := mem_of_prime_dvd hq hprime (hprod ▸ hdvd)
    intro hone
    exact (hfactors q hmem).2 ((power_eq_one_iff hlt _ _).1 hone)

theorem prime_of_chainPasses {chain : List LucasLink} (h : chainPasses chain = true) :
    ∀ p ∈ chain.map number, p.Prime := by
  induction chain with
  | nil => simp
  | cons link chain ih =>
      unfold chainPasses at h
      rw [Bool.and_eq_true] at h
      have hrest := ih h.2
      intro p hp
      rcases List.mem_cons.1 hp with heq | htail
      · rw [heq]
        exact prime_of_passes hrest h.1
      · exact hrest p htail

end LucasLink

def fieldPrimeChain : List LucasLink :=
  [⟨fieldPrime, 3, [2, 3, 7, 13441,
      205115282021455665897114700593932402728804164701536103180137503955397371]⟩,
    ⟨205115282021455665897114700593932402728804164701536103180137503955397371, 10,
      [2, 3, 5, 29, 29, 31, 7723, 132896956044521568488119,
        255515944373312847190720520512484175977]⟩,
    ⟨255515944373312847190720520512484175977, 3,
      [2, 2, 2, 7, 7, 11, 1627, 2657, 4423, 41201, 96557, 7240687, 107590001]⟩,
    ⟨107590001, 3, [2, 2, 2, 2, 5, 5, 5, 5, 7, 29, 53]⟩,
    ⟨7240687, 3, [2, 3, 1206781]⟩,
    ⟨1206781, 10, [2, 2, 3, 5, 20113]⟩,
    ⟨132896956044521568488119, 6, [2, 3, 22149492674086928081353]⟩,
    ⟨22149492674086928081353, 5, [2, 2, 2, 3, 5323, 173378833005251801]⟩,
    ⟨173378833005251801, 6, [2, 2, 2, 5, 5, 2621, 24809, 13331831]⟩,
    ⟨13331831, 13, [2, 5, 971, 1373]⟩]

def groupOrderChain : List LucasLink :=
  [⟨groupOrder, 7, [2, 2, 2, 2, 2, 2, 3, 149, 631, 107361793816595537, 174723607534414371449,
      341948486974166000522343609283189]⟩,
    ⟨341948486974166000522343609283189, 2, [2, 2, 3, 3, 3, 109, 29047611873442575647497758179]⟩,
    ⟨29047611873442575647497758179, 2, [2, 293, 305873, 545358713, 297159362677]⟩,
    ⟨297159362677, 2, [2, 2, 3, 3, 11, 461, 1627771]⟩,
    ⟨1627771, 3, [2, 3, 5, 29, 1871]⟩,
    ⟨545358713, 5, [2, 2, 2, 41, 59, 28181]⟩,
    ⟨174723607534414371449, 3, [2, 2, 2, 17, 59, 4051, 120233, 44706919]⟩,
    ⟨44706919, 6, [2, 3, 797, 9349]⟩,
    ⟨107361793816595537, 3, [2, 2, 2, 2, 16699, 85831, 4681609]⟩,
    ⟨4681609, 23, [2, 2, 2, 3, 97, 2011]⟩]

theorem chainPasses_fieldPrimeChain : LucasLink.chainPasses fieldPrimeChain = true := by
  decide +kernel

theorem chainPasses_groupOrderChain : LucasLink.chainPasses groupOrderChain = true := by
  decide +kernel

theorem prime_fieldPrime : fieldPrime.Prime :=
  LucasLink.prime_of_chainPasses chainPasses_fieldPrimeChain fieldPrime List.mem_cons_self

theorem prime_groupOrder : groupOrder.Prime :=
  LucasLink.prime_of_chainPasses chainPasses_groupOrderChain groupOrder List.mem_cons_self

end TxScript.Curve
