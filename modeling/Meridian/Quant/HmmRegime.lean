import Meridian.Quant.Volatility

/-!
# The regime detector

Model of `quant/hmm_regime.py`. `hmmlearn`, which may be missing, is a parameter: how a Gaussian
model is built, decoded and fitted; decoding and fitting may raise.

Out of scope: what `hmmlearn` computes.
-/

namespace Meridian

/-- `HMM_REGIME_NAMES` -/
def HMM_REGIME_NAMES : Fin 5 → String
  | 0 => "LOW_VOL"
  | 1 => "NORMAL"
  | 2 => "HIGH_VOL"
  | 3 => "HIGH_VOL_CRASH"
  | 4 => "RECOVERY"

/-- What the detector uses of `hmmlearn`; `M` are its models. -/
structure Hmmlearn (K M : Type*) where
  /-- `_build_model` -/
  build_model : M
  /-- The last state of the decoded path and its posterior; none if it raises. -/
  decode : M → List (Features K) → Option (Fin 5 × K)
  /-- `fit` from the parameters of a model; none if it raises. -/
  refit : M → List (Features K) → Option M

/-- `HMMRegimeDetector` (`hmm_regime.py:107-117`). -/
structure HMMRegimeDetector (K M : Type*) [Zero K] where
  cfg : HMMConfig
  observations : BoundedQueue (Features K) cfg.hmm_lookback.1 := .empty
  current_regime : String := "NORMAL"
  confidence : K := 0
  obs_count : ℕ := 0
  model : Option M := none

namespace HMMRegimeDetector

variable {K M : Type*} [Field K] [LinearOrder K]

/-- A new detector. -/
def new (hmmlearn : Option (Hmmlearn K M)) (cfg : HMMConfig) : HMMRegimeDetector K M :=
  { cfg := cfg, model := hmmlearn.map Hmmlearn.build_model }

/-- `is_ready` -/
def is_ready (d : HMMRegimeDetector K M) : Bool :=
  decide (d.cfg.hmm_min_observations.1 ≤ d.observations.items.length)

/-- `_fallback_decode` (`hmm_regime.py:181-206`) on the latest observation. -/
def fallback_decode (d : HMMRegimeDetector K M) (latest : Features K) : String × K :=
  if ((5 / 1000 : ℚ) : K) < latest.zz_vol ∧ latest.net_direction < ((-3 / 1000 : ℚ) : K) ∧
      latest.price_roc < -4 / 1000 then ("HIGH_VOL_CRASH", ((8 / 10 : ℚ) : K))
  else if (((2 / 1000 : ℚ) : K) < latest.zz_vol ∧ ((1 / 1000 : ℚ) : K) < latest.net_direction ∧
      1 / 1000 < latest.price_roc) ∧
      (d.current_regime = "HIGH_VOL_CRASH" ∨ d.current_regime = "RECOVERY") then
    ("RECOVERY", ((7 / 10 : ℚ) : K))
  else if ((3 / 1000 : ℚ) : K) < latest.zz_vol then ("HIGH_VOL", ((7 / 10 : ℚ) : K))
  else if latest.zz_vol < ((8 / 10000 : ℚ) : K) then ("LOW_VOL", ((8 / 10 : ℚ) : K))
  else ("NORMAL", ((6 / 10 : ℚ) : K))

/-- `_decode_regime` (`hmm_regime.py:164-179`). -/
def decode_regime (hmmlearn : Option (Hmmlearn K M)) (d : HMMRegimeDetector K M)
    (latest : Features K) : String × K :=
  match hmmlearn, d.model with
  | some h, some model =>
    match h.decode model d.observations.items with
    | some (state, confidence) => (HMM_REGIME_NAMES state, confidence)
    | none => d.fallback_decode latest
  | _, _ => d.fallback_decode latest

/-- `_refit` (`hmm_regime.py:208-229`), every `refit_interval` observations. -/
def refit (hmmlearn : Option (Hmmlearn K M)) (d : HMMRegimeDetector K M) : HMMRegimeDetector K M :=
  match hmmlearn, d.model with
  | some h, some model =>
    if 0 < d.obs_count ∧ d.obs_count % d.cfg.refit_interval.1 = 0 ∧ d.is_ready then
      { d with model := some ((h.refit model d.observations.items).getD model) }
    else d
  | _, _ => d

/-- `update` (`hmm_regime.py:131-162`); the regime it returns is the one it leaves. -/
def update (hmmlearn : Option (Hmmlearn K M)) (d : HMMRegimeDetector K M) (obs : Features K) :
    HMMRegimeDetector K M :=
  let d := { d with observations := d.observations.push obs, obs_count := d.obs_count + 1 }
  if d.is_ready then
    let (regime, confidence) := d.decode_regime hmmlearn obs
    refit hmmlearn { d with current_regime := regime, confidence := confidence }
  else d

end HMMRegimeDetector

end Meridian
