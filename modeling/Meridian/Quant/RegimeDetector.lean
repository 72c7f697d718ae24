import Mathlib.Algebra.Order.Field.Rat
import Mathlib.Data.Fin.VecNotation
import Mathlib.Data.Matrix.Mul
import Mathlib.Data.Rat.Cast.Defs
import Meridian.Utils.MathUtils

/-!
# The hidden Markov model

Model of `quant/regime_detector.py`: its default parameters, the scaled forward and backward
passes, Baum-Welch, and the detector that filters one observation at a time. The rows of `alpha`, of
`gamma` and the matrices `xi_t` are kept as they are before they are divided by their totals: a
total that is 0 is replaced by `1e-300` first (`guarded`).

An observation of a training sequence is one of the alphabet's; `update` takes any integer.

Out of scope: the rounding, overflow and underflow of doubles (a probability is a number of an ordered
field), and the logging.
-/

namespace Meridian

/-- `pi`, `A` and `B`, with `N` hidden states and `M` observations. -/
structure Hmm (K : Type*) (N M : ℕ) where
  pi : Fin N → K
  A : Matrix (Fin N) (Fin N) K
  B : Matrix (Fin N) (Fin M) K

/-- `pi_acc`, `A_acc`, `B_acc` and `total_ll`. -/
@[ext] structure Counts (K : Type*) (N M : ℕ) where
  pi_acc : Fin N → K
  A_acc : Matrix (Fin N) (Fin N) K
  B_acc : Matrix (Fin N) (Fin M) K
  total_ll : K

namespace Hmm

open Matrix

variable {K : Type*} [Field K] [LinearOrder K] {N M : ℕ}

/-- `1e-300` -/
def tiny : K := ((1 / 10 ^ 300 : ℚ) : K)

/-- The least value of a probability before it is divided by its total, `1e-10`. -/
def least : K := ((1 / 10 ^ 10 : ℚ) : K)

/-- `if total == 0: total = 1e-300` -/
def guarded (total : K) : K := if total = 0 then tiny else total

/-- Values divided by their total. -/
def scaled {ι : Type*} [Fintype ι] (raw : ι → K) : ι → K := fun i => raw i / guarded (∑ i, raw i)

/-! ## `_forward` and `_backward` -/

/-- The rows of `alpha` after one that is already scaled (`regime_detector.py:227-232`). -/
def forward_rows (p : Hmm K N M) : (Fin N → K) → List (Fin M) → List (Fin N → K)
  | _, [] => []
  | alpha, o :: obs =>
    let raw := fun j => (alpha ᵥ* p.A) j * p.B j o
    raw :: p.forward_rows (scaled raw) obs

/-- `_forward` (`regime_detector.py:216-235`): the rows of `alpha`, not yet scaled. It is not called
on no observations. -/
def forward_raw (p : Hmm K N M) : List (Fin M) → List (Fin N → K)
  | [] => []
  | o :: obs =>
    let raw := fun i => p.pi i * p.B i o
    raw :: p.forward_rows (scaled raw) obs

/-- `alpha` -/
def alpha (p : Hmm K N M) (obs : List (Fin M)) : List (Fin N → K) :=
  (p.forward_raw obs).map scaled

/-- `scale` -/
def scale (p : Hmm K N M) (obs : List (Fin M)) : List K :=
  (p.forward_raw obs).map fun raw => guarded (∑ i, raw i)

/-- `_backward` (`regime_detector.py:238-248`) on the observations, each with its scale. -/
def backward (p : Hmm K N M) : List (Fin M × K) → List (Fin N → K)
  | [] => []
  | [_] => [fun _ => 1]
  | _ :: (o, c) :: later =>
    let beta := p.backward ((o, c) :: later)
    (fun i => (p.A *ᵥ fun j => p.B j o * beta.headD 0 j) i / c) :: beta

/-- `beta` -/
def beta (p : Hmm K N M) (obs : List (Fin M)) : List (Fin N → K) :=
  p.backward (obs.zip (p.scale obs))

/-! ## The expectation step -/

/-- `alpha * beta`, row by row. -/
def gamma_raw (p : Hmm K N M) (obs : List (Fin M)) : List (Fin N → K) :=
  List.zipWith (fun a b i => a i * b i) (p.alpha obs) (p.beta obs)

/-- `gamma` -/
def gamma (p : Hmm K N M) (obs : List (Fin M)) : List (Fin N → K) := (p.gamma_raw obs).map scaled

/-- `numer`: `np.outer(alpha[t], beta[t + 1] * B[:, obs[t + 1]]) * A` for each `t` but the last. -/
def numer (p : Hmm K N M) (obs : List (Fin M)) : List (Fin N × Fin N → K) :=
  List.zipWith (fun a ob ij => a ij.1 * (ob.2 ij.2 * p.B ij.2 ob.1) * p.A ij.1 ij.2) (p.alpha obs)
    (obs.zip (p.beta obs)).tail

/-- `xi_t` for each `t` but the last. -/
def xi (p : Hmm K N M) (obs : List (Fin M)) : List (Fin N × Fin N → K) := (p.numer obs).map scaled

section Log

variable [MathFunctions K]

/-- `log_likelihood` -/
def log_likelihood (p : Hmm K N M) (obs : List (Fin M)) : K :=
  ((p.scale obs).map fun c => MathFunctions.log (c + tiny)).sum

/-- What one sequence adds (`regime_detector.py:273-296`); one of fewer than two observations is
left out. -/
def add_sequence (p : Hmm K N M) (c : Counts K N M) (obs : List (Fin M)) : Counts K N M :=
  if obs.length < 2 then c
  else
    let gamma := p.gamma obs
    { total_ll := c.total_ll + p.log_likelihood obs
      A_acc := (p.xi obs).foldl (fun A_acc xi_t i j => A_acc i j + xi_t (i, j)) c.A_acc
      pi_acc := fun i => c.pi_acc i + gamma.headD 0 i
      B_acc := (obs.zip gamma).foldl
        (fun B_acc og i o => if o = og.1 then B_acc i o + og.2 i else B_acc i o) c.B_acc }

/-- The accumulators after all sequences. -/
def counts (p : Hmm K N M) (obs_sequences : List (List (Fin M))) : Counts K N M :=
  obs_sequences.foldl p.add_sequence ⟨0, 0, 0, 0⟩

end Log

/-! ## `baum_welch` -/

/-- Values divided by their total and a guard term. -/
def divided {n : ℕ} (guard : K) (acc : Fin n → K) : Fin n → K :=
  fun i => acc i / (∑ i, acc i + guard)

/-- The parameters of the accumulators (`regime_detector.py:298-300`), where the guard term is
`1e-300`. -/
def reestimate (guard : K) (c : Counts K N M) : Hmm K N M where
  pi := divided guard c.pi_acc
  A := fun i => divided guard (c.A_acc i)
  B := fun i => divided guard (c.B_acc i)

/-- `np.maximum(acc, 1e-10)` -/
def raised {n : ℕ} (acc : Fin n → K) : Fin n → K := fun i => max (acc i) least

/-- `x = np.maximum(x, 1e-10); x /= x.sum()` -/
def floored {n : ℕ} (acc : Fin n → K) : Fin n → K := fun i => raised acc i / ∑ i, raised acc i

/-- The parameters after the floor (`regime_detector.py:302-304`). -/
def floor (p : Hmm K N M) : Hmm K N M where
  pi := floored p.pi
  A := fun i => floored (p.A i)
  B := fun i => floored (p.B i)

/-- The parameters that one iteration makes of the accumulators. -/
def maximise (c : Counts K N M) : Hmm K N M := (reestimate tiny c).floor

variable [MathFunctions K]

/-- The loop of `baum_welch` with `n` iterations left; there is no `prev_ll` before the first one,
where it is `-inf`. -/
def baum_welch_loop (obs_sequences : List (List (Fin M))) (tol : K) :
    ℕ → Option K → Hmm K N M → Hmm K N M
  | 0, _, p => p
  | n + 1, prev_ll, p =>
    let c := p.counts obs_sequences
    if prev_ll.any fun prev_ll => |c.total_ll - prev_ll| < tol then maximise c
    else baum_welch_loop obs_sequences tol n (some c.total_ll) (maximise c)

/-- `baum_welch` (`regime_detector.py:251-314`). -/
def baum_welch (obs_sequences : List (List (Fin M))) (p : Hmm K N M) (n_iter : ℤ) (tol : K) :
    Hmm K N M :=
  baum_welch_loop obs_sequences tol n_iter.toNat none p

end Hmm

/-! ## The observations -/

/-- `_PV_SIZE` -/
def PV_SIZE : ℕ := 3

/-- `_BAS_SIZE` -/
def BAS_SIZE : ℕ := 3

/-- `_OBI_SIZE` -/
def OBI_SIZE : ℕ := 3

/-- `_FR_SIZE` -/
def FR_SIZE : ℕ := 3

/-- `_PCR_SIZE` -/
def PCR_SIZE : ℕ := 4

/-- `N_OBS`. It is 324; the comments of the source say 108. -/
def N_OBS : ℕ := PV_SIZE * BAS_SIZE * OBI_SIZE * FR_SIZE * PCR_SIZE

def N_STATES : ℕ := 4

/-- `encode_observation` (`regime_detector.py:189-194`). -/
def encode_observation (pv bas obi fr pcr : ℕ) : ℕ :=
  pv * (BAS_SIZE * OBI_SIZE * FR_SIZE * PCR_SIZE) + bas * (OBI_SIZE * FR_SIZE * PCR_SIZE) +
    obi * (FR_SIZE * PCR_SIZE) + fr * PCR_SIZE + pcr

/-- The bins of an observation. -/
structure Bins where
  pv : Fin PV_SIZE
  bas : Fin BAS_SIZE
  obi : Fin OBI_SIZE
  fr : Fin FR_SIZE
  pcr : Fin PCR_SIZE

/-- The bins that an observation encodes. -/
def bins (o : Fin N_OBS) : Bins where
  pv := ⟨o / (BAS_SIZE * OBI_SIZE * FR_SIZE * PCR_SIZE) % PV_SIZE, Nat.mod_lt _ (by decide)⟩
  bas := ⟨o / (OBI_SIZE * FR_SIZE * PCR_SIZE) % BAS_SIZE, Nat.mod_lt _ (by decide)⟩
  obi := ⟨o / (FR_SIZE * PCR_SIZE) % OBI_SIZE, Nat.mod_lt _ (by decide)⟩
  fr := ⟨o / PCR_SIZE % FR_SIZE, Nat.mod_lt _ (by decide)⟩
  pcr := ⟨o % PCR_SIZE, Nat.mod_lt _ (by decide)⟩

-- the loops that fill `B` reach each observation at its bins
example : ∀ o : Fin N_OBS,
    encode_observation (bins o).pv (bins o).bas (bins o).obi (bins o).fr (bins o).pcr = o := by
  decide +kernel

/-! ## The default parameters -/

/-- `_default_pi` (`regime_detector.py:60-62`). -/
def default_pi : Fin N_STATES → ℚ := ![50 / 100, 25 / 100, 15 / 100, 10 / 100]

/-- The table of `_default_A`. -/
def transition_probs : Matrix (Fin N_STATES) (Fin N_STATES) ℚ :=
  ![![75 / 100, 12 / 100, 8 / 100, 5 / 100],
    ![20 / 100, 65 / 100, 10 / 100, 5 / 100],
    ![15 / 100, 10 / 100, 65 / 100, 10 / 100],
    ![25 / 100, 10 / 100, 15 / 100, 50 / 100]]

/-- `_default_A` (`regime_detector.py:65-78`). -/
def default_A : Matrix (Fin N_STATES) (Fin N_STATES) ℚ :=
  fun i j => transition_probs i j / ∑ j, transition_probs i j

def price_vol_probs : Matrix (Fin N_STATES) (Fin PV_SIZE) ℚ :=
  ![![55 / 100, 35 / 100, 10 / 100],
    ![20 / 100, 50 / 100, 30 / 100],
    ![5 / 100, 20 / 100, 75 / 100],
    ![30 / 100, 40 / 100, 30 / 100]]

def bas_probs : Matrix (Fin N_STATES) (Fin BAS_SIZE) ℚ :=
  ![![60 / 100, 35 / 100, 5 / 100],
    ![25 / 100, 55 / 100, 20 / 100],
    ![5 / 100, 30 / 100, 65 / 100],
    ![10 / 100, 30 / 100, 60 / 100]]

def obi_probs : Matrix (Fin N_STATES) (Fin OBI_SIZE) ℚ :=
  ![![20 / 100, 60 / 100, 20 / 100],
    ![20 / 100, 30 / 100, 50 / 100],
    ![35 / 100, 40 / 100, 25 / 100],
    ![25 / 100, 50 / 100, 25 / 100]]

def fr_probs : Matrix (Fin N_STATES) (Fin FR_SIZE) ℚ :=
  ![![20 / 100, 60 / 100, 20 / 100],
    ![10 / 100, 30 / 100, 60 / 100],
    ![40 / 100, 30 / 100, 30 / 100],
    ![30 / 100, 50 / 100, 20 / 100]]

def pcr_probs : Matrix (Fin N_STATES) (Fin PCR_SIZE) ℚ :=
  ![![10 / 100, 35 / 100, 45 / 100, 10 / 100],
    ![10 / 100, 15 / 100, 40 / 100, 35 / 100],
    ![20 / 100, 25 / 100, 25 / 100, 30 / 100],
    ![15 / 100, 30 / 100, 40 / 100, 15 / 100]]

/-- The joint probabilities of `_default_B`. -/
def joint_probs : Matrix (Fin N_STATES) (Fin N_OBS) ℚ := fun s o =>
  price_vol_probs s (bins o).pv * bas_probs s (bins o).bas * obi_probs s (bins o).obi *
    fr_probs s (bins o).fr * pcr_probs s (bins o).pcr

/-- `_default_B` (`regime_detector.py:81-145`). -/
def default_B : Matrix (Fin N_STATES) (Fin N_OBS) ℚ :=
  fun s o => joint_probs s o / ∑ o, joint_probs s o

/-! ## The detector -/

/-- `RegimeDetector` -/
structure RegimeDetector (K : Type*) extends Hmm K N_STATES N_OBS where
  belief : Fin N_STATES → K
  last_obs : Option ℤ := none

namespace RegimeDetector

open Matrix

variable {K : Type*} [Field K] [LinearOrder K]

/-- `RegimeDetector.__init__` (`regime_detector.py:332-338`). -/
def new : RegimeDetector K where
  pi := fun i => (default_pi i : K)
  A := fun i j => (default_A i j : K)
  B := fun i o => (default_B i o : K)
  belief := fun i => (default_pi i : K)

/-- `updated`: the belief one step on, times the likelihood of the observation. -/
def updated (d : RegimeDetector K) (o : Fin N_OBS) : Fin N_STATES → K :=
  fun j => (d.belief ᵥ* d.A) j * d.B j o

/-- `update` on an observation in range. -/
def observe (d : RegimeDetector K) (o : Fin N_OBS) : RegimeDetector K :=
  let denom := ∑ j, d.updated o j
  if denom < Hmm.tiny then { d with belief := d.pi, last_obs := some o }
  else { d with belief := fun j => d.updated o j / denom, last_obs := some o }

/-- `update` (`regime_detector.py:342-359`); an observation out of range is ignored. -/
def update (d : RegimeDetector K) (observation : ℤ) : RegimeDetector K :=
  if h : 0 ≤ observation ∧ observation < N_OBS then d.observe ⟨observation.toNat, by omega⟩ else d

/-- `train` (`regime_detector.py:402-415`). -/
def train [MathFunctions K] (d : RegimeDetector K) (observation_sequences : List (List (Fin N_OBS)))
    (n_iter : ℤ) (tol : K) : RegimeDetector K :=
  let p := d.toHmm.baum_welch observation_sequences n_iter tol
  { d with toHmm := p, belief := p.pi }

end RegimeDetector

end Meridian
