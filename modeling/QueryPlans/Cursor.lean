import QueryPlans.Row

/-!
# Cursor — one place where rows are pulled

A cursor pulls deliveries from a source, each a row or a failure, and watches a cancellation signal.
The signal is looked at before every pull; it may also be raised while a pull is served, and that
pull still answers.  Once the source has run dry no more is pulled from it.  `Cursor.scan` is the
loop of every consumer: it feeds rows to a step until the step is done.
-/

namespace QueryPlans

/-- What a source answers a pull with. -/
inductive Delivery where
  | row (row : Row)
  | failure (reason : String)
deriving DecidableEq

/-- A source that rows are pulled from, with the signal that is watched. -/
structure Cursor where
  /-- What the source has yet to deliver. -/
  pending : List Delivery
  /-- How many pulls the source has served. -/
  pulls : Nat
  /-- The pull during which the signal is raised. -/
  cancelOn : Option Nat
  cancelled : Bool
  /-- Whether the signal is looked at. -/
  watching : Bool
  exhausted : Bool
  /-- How many rows were pulled. -/
  fetched : Nat
deriving DecidableEq

namespace Cursor

/-- A cursor that has not pulled yet. -/
def ofDeliveries (deliveries : List Delivery) : Cursor where
  pending := deliveries
  pulls := 0
  cancelOn := none
  cancelled := false
  watching := false
  exhausted := false
  fetched := 0

/-- Looks at the signal from now on. -/
def watch (c : Cursor) : Cursor := { c with watching := true }

/-- Raises the signal. -/
def cancel (c : Cursor) : Cursor := { c with cancelled := true }

/-- Fails if the signal is watched and has been raised. -/
def check (c : Cursor) : Except ReadError Unit :=
  if c.watching && c.cancelled then .error .cancelled else .ok ()

/-- The cursor after one more pull, whatever the source answers. -/
def pulled (c : Cursor) : Cursor :=
  let pulls := c.pulls + 1
  { c with pulls, cancelled := c.cancelled || c.cancelOn == some pulls }

/-- **Pulls the next row**, if the source has one. -/
def fetch (c : Cursor) : Except ReadError (Option Row) × Cursor :=
  match c.check with
  | .error e => (.error e, c)
  | .ok () =>
    if c.exhausted then (.ok none, c)
    else
      match c.pending with
      | [] => (.ok none, { c.pulled with exhausted := true })
      | .failure reason :: rest =>
        (.error (.sourceFailed reason), { c.pulled with pending := rest })
      | .row row :: rest =>
        (.ok (some row), { c.pulled with pending := rest, fetched := c.fetched + 1 })

/-- What a step makes of a row, or of the end of rows. -/
inductive Verdict where
  | more
  | done
  | fail (error : ReadError)

/-- The first argument bounds the number of rows. -/
def scanWithin {σ : Type} (step : σ → Option Row → σ × Verdict) :
    Nat → Cursor → σ → Except ReadError Unit × σ × Cursor
  | bound, c, s =>
    match c.fetch with
    | (.error e, c) => (.error e, s, c)
    | (.ok row, c) =>
      match step s row with
      | (s, .fail e) => (.error e, s, c)
      | (s, .done) => (.ok (), s, c)
      | (s, .more) =>
        match bound with
        | 0 => (.ok (), s, c)
        | bound + 1 => scanWithin step bound c s

/-- **Feeds rows to a step until it is done.**  A step is done at the end of rows at the latest, so
the number of pending deliveries bounds the scan. -/
def scan {σ : Type} (step : σ → Option Row → σ × Verdict) (c : Cursor) (s : σ) :
    Except ReadError Unit × σ × Cursor :=
  scanWithin step c.pending.length c s

end Cursor

end QueryPlans
