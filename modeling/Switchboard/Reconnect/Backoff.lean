import Switchboard.Reconnect.RetryAfter

/-!
# Reconnect delays

The delay doubles with each attempt that fails, up to a maximum, and starts anew once a connection
is established. The server may replace the initial delay for the rest of the subscription, and a
rejected attempt may name its own delay.

- `Backoff.Config`: initial delay, maximum and jitter.
- `reconnectDelay`: the delay before an attempt, from the number of attempts before it.
- `Backoff`: the state of a subscription; `next`, `reset`, `setServerDelay`.
-/

namespace Switchboard

open Number (Binary64 Magnitude)

/-- The settings of the push channel's backoff. -/
structure ReconnectSettings where
  initialMillis : Nat := 500
  maxMillis : Nat := 8000
  /-- By how much a delay may be shortened at random: 0.25 is up to a quarter. -/
  jitter : Binary64 := .finite false ⟨Nat.pow 2 52, 1020⟩
  deriving DecidableEq, Repr

namespace Backoff

structure Config where
  initial : Duration
  max : Duration
  jitter : Binary64
  deriving DecidableEq, Repr

/-- One quarter. -/
def defaultJitter : Binary64 := .finite false ⟨Nat.pow 2 52, 1020⟩

/-- The maximum is at least the initial delay, and the jitter a share of the delay. -/
def Config.ofSettings (s : ReconnectSettings) : Config where
  initial := .ofMillis s.initialMillis
  max := .ofMillis (Nat.max s.maxMillis s.initialMillis)
  jitter := if s.jitter.isFinite then s.jitter.clampUnit else defaultJitter

end Backoff

/-- The share of the delay that is kept when `draw`, below one, of the jitter is taken off. -/
def keptShare (jitter : Binary64) (draw : Magnitude) : Magnitude :=
  match jitter with
  | .finite .. =>
    match jitter.clampUnit with
    | .finite _ m =>
      let taken := (draw.mul? m).getD .zero
      (Magnitude.ofUnits? (Magnitude.unitsPerOne - taken.units) 1).getD .zero
    | _ => .ofNat 1
  | _ => .ofNat 1

/-- The delay before an attempt after `step` others: the base doubled `step` times, at most sixteen
times, but no more than the maximum or the base itself. `base` replaces the initial delay. -/
def reconnectDelay (step : Nat) (config : Backoff.Config) (base : Option Duration)
    (draw : Magnitude) : Duration :=
  let initial := base.getD config.initial
  let delay := (initial.inSeconds.mul? (.ofNat (Nat.pow 2 (min step 16)))).getD .zero
  let capped := delay.min (config.max.max initial).inSeconds
  (((capped.mul? (keptShare config.jitter draw)).bind Duration.ofSeconds?)).getD config.max

/-- The reconnect state of a subscription. -/
structure Backoff where
  config : Backoff.Config
  /-- Attempts since the last connection, counted up to 2^32 - 1. -/
  step : Nat
  serverDelay : Option Duration
  deriving DecidableEq, Repr

namespace Backoff

def maxStep : Nat := Nat.pow 2 32 - 1

def new (config : Config) : Backoff := ⟨config, 0, none⟩

/-- The delay before the next attempt. A delay named by the rejected attempt goes first. -/
def next (b : Backoff) (fields : ResponseFields) (draw : Magnitude) : Duration × Backoff :=
  let delay := (RetryAfter.delay? fields).getD (reconnectDelay b.step b.config b.serverDelay draw)
  (delay, { b with step := min (b.step + 1) maxStep })

def reset (b : Backoff) : Backoff := { b with step := 0 }

def setServerDelay (b : Backoff) (d : Duration) : Backoff := { b with serverDelay := some d }

end Backoff

end Switchboard
