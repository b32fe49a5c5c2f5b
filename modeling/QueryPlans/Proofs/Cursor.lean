import QueryPlans.Cursor

/-!
# Proofs/Cursor — cursors that serve their rows

A cursor serves rows when the source has nothing else to deliver and no signal will be seen
(`Serves`).  A scan over such a cursor is a run of its step on the rows: it goes on as long as the
step asks for more, and ends where the step is done.  Over any other cursor a scan pulls rows one by
one just the same, and may end with a fault of the source (`Scans`).
-/

namespace QueryPlans

namespace Cursor

/-- **A cursor that serves rows** and then comes to its end. -/
structure Serves (c : Cursor) (rows : List Row) : Prop where
  pending : c.pending = rows.map Delivery.row
  exhausted : c.exhausted = true → rows = []
  quiet : c.watching = true → c.cancelled = false ∧ c.cancelOn = none

theorem serves_ofDeliveries (rows : List Row) :
    (ofDeliveries (rows.map Delivery.row)).Serves rows :=
  ⟨rfl, (by cases ·), (by cases ·)⟩

namespace Serves

variable {c : Cursor} {row : Row} {rows rest : List Row}

/-- A cursor that serves rows has no signal to heed. -/
theorem check_eq (h : c.Serves rows) : c.check = .ok () := by
  rw [check]
  cases hwatching : c.watching with
  | false => rfl
  | true =>
    rw [(h.quiet hwatching).1]
    rfl

theorem quiet_pulled (h : c.Serves rows) :
    c.pulled.watching = true → c.pulled.cancelled = false ∧ c.pulled.cancelOn = none := by
  intro hwatching
  obtain ⟨hcancelled, hcancelOn⟩ := h.quiet hwatching
  simp [pulled, hcancelled, hcancelOn]

/-- The next row is pulled, and the rest is served. -/
theorem fetch_cons (h : c.Serves (row :: rest)) :
    ∃ c', c.fetch = (.ok (some row), c') ∧ c'.Serves rest := by
  have hexhausted : c.exhausted = false := by
    rw [Bool.eq_false_iff]
    exact fun hend => List.cons_ne_nil _ _ (h.exhausted hend)
  refine ⟨{ c.pulled with pending := rest.map Delivery.row, fetched := c.fetched + 1 }, ?_, ?_⟩
  · simp [fetch, h.check_eq, hexhausted, h.pending]
  · exact ⟨rfl, fun hend => by simp [pulled, hexhausted] at hend, h.quiet_pulled⟩

/-- Behind the last row the end is found, as often as it is asked for. -/
theorem fetch_nil (h : c.Serves []) : ∃ c', c.fetch = (.ok none, c') ∧ c'.Serves [] := by
  cases hexhausted : c.exhausted with
  | true => exact ⟨c, by simp [fetch, h.check_eq, hexhausted], h⟩
  | false =>
    refine ⟨{ c.pulled with exhausted := true }, ?_, ?_⟩
    · simp [fetch, h.check_eq, hexhausted, h.pending]
    · exact ⟨h.pending, fun _ => rfl, h.quiet_pulled⟩

end Serves

/-! ## Scans -/

variable {σ : Type} {step : σ → Option Row → σ × Verdict}

theorem scanWithin_done {bound : Nat} {c c' : Cursor} {s s' : σ} {row : Option Row}
    (hfetch : c.fetch = (.ok row, c')) (hstep : step s row = (s', .done)) :
    scanWithin step bound c s = (.ok (), s', c') := by
  rw [scanWithin.eq_def]
  simp [hfetch, hstep]

theorem scanWithin_fault {bound : Nat} {c c' : Cursor} {s : σ} {e : ReadError}
    (hfetch : c.fetch = (.error e, c')) : scanWithin step bound c s = (.error e, s, c') := by
  rw [scanWithin.eq_def]
  simp [hfetch]

theorem scanWithin_fail {bound : Nat} {c c' : Cursor} {s s' : σ} {row : Option Row} {e : ReadError}
    (hfetch : c.fetch = (.ok row, c')) (hstep : step s row = (s', .fail e)) :
    scanWithin step bound c s = (.error e, s', c') := by
  rw [scanWithin.eq_def]
  simp [hfetch, hstep]

/-- A scan that goes on is a scan from the next row. -/
theorem scanWithin_more {bound : Nat} {c c' : Cursor} {s s' : σ} {row : Option Row}
    (hfetch : c.fetch = (.ok row, c')) (hstep : step s row = (s', .more)) :
    scanWithin step (bound + 1) c s = scanWithin step bound c' s' := by
  rw [scanWithin.eq_def]
  simp [hfetch, hstep]

/-- A step that asks for more on each of several rows. -/
inductive Continues (step : σ → Option Row → σ × Verdict) : σ → List Row → σ → Prop
  | nil {s : σ} : Continues step s [] s
  | cons {s s' s'' : σ} {row : Row} {rows : List Row} (head : step s (some row) = (s', .more))
    (tail : Continues step s' rows s'') : Continues step s (row :: rows) s''

namespace Serves

variable {c : Cursor} {s s' s'' : σ} {row : Row} {rows rest : List Row}

/-- A row on which the step asks for more only moves the scan on. -/
theorem scan_more (h : c.Serves (row :: rest)) (hstep : step s (some row) = (s', .more)) :
    ∃ c' : Cursor, c.scan step s = c'.scan step s' ∧ c'.Serves rest := by
  obtain ⟨c', hfetch, hserves⟩ := h.fetch_cons
  refine ⟨c', ?_, hserves⟩
  rw [scan, scan, h.pending, hserves.pending, List.map_cons, List.length_cons]
  exact scanWithin_more hfetch hstep

/-- A scan may be done with the first row. -/
theorem scan_done (h : c.Serves (row :: rest)) (hstep : step s (some row) = (s', .done)) :
    ∃ c', c.scan step s = (.ok (), s', c') ∧ c'.Serves rest := by
  obtain ⟨c', hfetch, hserves⟩ := h.fetch_cons
  exact ⟨c', scanWithin_done hfetch hstep, hserves⟩

/-- At the end the step is asked once more, with no row. -/
theorem scan_exhausted (h : c.Serves []) (hstep : step s none = (s', .done)) :
    ∃ c', c.scan step s = (.ok (), s', c') ∧ c'.Serves [] := by
  obtain ⟨c', hfetch, hserves⟩ := h.fetch_nil
  exact ⟨c', scanWithin_done hfetch hstep, hserves⟩

/-- **A scan that ends at a row** has pulled all up to it. -/
theorem scan_row (h : c.Serves (rows ++ row :: rest)) (hmore : Continues step s rows s')
    (hdone : step s' (some row) = (s'', .done)) :
    ∃ c', c.scan step s = (.ok (), s'', c') ∧ c'.Serves rest := by
  induction hmore generalizing c with
  | nil => exact h.scan_done hdone
  | cons head tail ih =>
    obtain ⟨c', hscan, hserves⟩ := h.scan_more head
    rw [hscan]
    exact ih hserves hdone

/-- **A scan that ends with the rows** has pulled all of them. -/
theorem scan_end (h : c.Serves rows) (hmore : Continues step s rows s')
    (hdone : step s' none = (s'', .done)) :
    ∃ c', c.scan step s = (.ok (), s'', c') ∧ c'.Serves [] := by
  induction hmore generalizing c with
  | nil => exact h.scan_exhausted hdone
  | cons head tail ih =>
    obtain ⟨c', hscan, hserves⟩ := h.scan_more head
    rw [hscan]
    exact ih hserves hdone

end Serves

/-! ## Any cursor -/

/-- **Rows pulled one after the other**, whatever the cursor. -/
inductive Pulls : Cursor → List Row → Cursor → Prop
  | nil {c : Cursor} : Pulls c [] c
  | cons {c c' c'' : Cursor} {row : Row} {rows : List Row}
    (head : c.fetch = (.ok (some row), c')) (tail : Pulls c' rows c'') : Pulls c (row :: rows) c''

/-- Pulls follow one another. -/
theorem Pulls.append {c c' c'' : Cursor} {rows rows' : List Row} (h : Pulls c rows c')
    (h' : Pulls c' rows' c'') : Pulls c (rows ++ rows') c'' := by
  induction h with
  | nil => exact h'
  | cons head tail ih => exact .cons head (ih h')

/-- A row that is pulled was the next delivery. -/
theorem pending_of_fetch {c c' : Cursor} {row : Row} (h : c.fetch = (.ok (some row), c')) :
    c.pending = .row row :: c'.pending := by
  rw [fetch] at h
  split at h
  · cases h
  · split at h
    · cases h
    · split at h
      · cases h
      · cases h
      · next hpending =>
        cases h
        exact hpending

/-- Pulls can be taken apart between any two rows. -/
theorem Pulls.of_append {c c'' : Cursor} {rows rows' : List Row} (h : Pulls c (rows ++ rows') c'') :
    ∃ c', Pulls c rows c' ∧ Pulls c' rows' c'' := by
  induction rows generalizing c with
  | nil => exact ⟨c, .nil, h⟩
  | cons row rest ih =>
    cases h with
    | cons head tail =>
      obtain ⟨c', hrest, hrows'⟩ := ih tail
      exact ⟨c', .cons head hrest, hrows'⟩

/-- What is served can be pulled, row by row. -/
theorem Serves.pulls {c : Cursor} {rows rest : List Row} (h : c.Serves (rows ++ rest)) :
    ∃ c', c.Pulls rows c' ∧ c'.Serves rest := by
  induction rows generalizing c with
  | nil => exact ⟨c, .nil, h⟩
  | cons row rows ih =>
    obtain ⟨c', hfetch, hserves⟩ := h.fetch_cons
    obtain ⟨c'', hpulls, hrest⟩ := ih hserves
    exact ⟨c'', .cons hfetch hpulls, hrest⟩

/-- Rows on which the step asks for more only move a scan on. -/
theorem Pulls.scan_eq {c c' : Cursor} {s s' : σ} {rows : List Row} (h : c.Pulls rows c')
    (hmore : Continues step s rows s') : c.scan step s = c'.scan step s' := by
  induction h generalizing s with
  | nil =>
    cases hmore
    rfl
  | cons hfetch _ ih =>
    cases hmore with
    | cons hstep tail =>
      rw [← ih tail, scan, scan, pending_of_fetch hfetch, List.length_cons]
      exact scanWithin_more hfetch hstep

/-- **A scan that fails at a row** has pulled all up to it. -/
theorem Pulls.scan_fail {c c' : Cursor} {s s' s'' : σ} {rows : List Row} {row : Row} {e : ReadError}
    (h : c.Pulls (rows ++ [row]) c') (hmore : Continues step s rows s')
    (hfail : step s' (some row) = (s'', .fail e)) : c.scan step s = (.error e, s'', c') := by
  obtain ⟨c'', hrows, hlast⟩ := h.of_append
  cases hlast with
  | cons hfetch hnil =>
    cases hnil
    rw [hrows.scan_eq hmore]
    exact scanWithin_fail hfetch hfail

/-- **What a scan amounts to**, pull by pull, when its step is done at the end of rows. -/
inductive Scans (step : σ → Option Row → σ × Verdict) :
    Cursor → σ → Except ReadError Unit × σ × Cursor → Prop
  | fault {c c' : Cursor} {s : σ} {e : ReadError} (hfetch : c.fetch = (.error e, c')) :
    Scans step c s (.error e, s, c')
  | fail {c c' : Cursor} {s s' : σ} {row : Option Row} {e : ReadError}
    (hfetch : c.fetch = (.ok row, c')) (hstep : step s row = (s', .fail e)) :
    Scans step c s (.error e, s', c')
  | done {c c' : Cursor} {s s' : σ} {row : Option Row} (hfetch : c.fetch = (.ok row, c'))
    (hstep : step s row = (s', .done)) : Scans step c s (.ok (), s', c')
  | more {c c' : Cursor} {s s' : σ} {row : Row} {result : Except ReadError Unit × σ × Cursor}
    (hfetch : c.fetch = (.ok (some row), c')) (hstep : step s (some row) = (s', .more))
    (tail : Scans step c' s' result) : Scans step c s result

/-- **The bound of a scan is never reached**: what is pending, and one pull for the end, is enough.
-/
theorem scans_scanWithin (hnone : ∀ s, (step s none).2 ≠ .more) (bound : Nat) (c : Cursor)
    (s : σ) (hbound : c.pending.length ≤ bound) : Scans step c s (scanWithin step bound c s) := by
  rcases hfetch : c.fetch with ⟨e | row, c'⟩
  · rw [scanWithin_fault hfetch]
    exact .fault hfetch
  · rcases hstep : step s row with ⟨s', verdict⟩
    cases verdict with
    | fail e =>
      rw [scanWithin_fail hfetch hstep]
      exact .fail hfetch hstep
    | done =>
      rw [scanWithin_done hfetch hstep]
      exact .done hfetch hstep
    | more =>
      cases row with
      | none => exact absurd (congrArg Prod.snd hstep) (hnone s)
      | some row =>
        rw [pending_of_fetch hfetch, List.length_cons] at hbound
        cases bound with
        | zero => cases hbound
        | succ bound =>
          rw [scanWithin_more hfetch hstep]
          exact .more hfetch hstep
            (scans_scanWithin hnone bound c' s' (Nat.le_of_succ_le_succ hbound))

/-- **A scan is what it amounts to**: the bound on its pulls is never reached. -/
theorem scans_scan (hnone : ∀ s, (step s none).2 ≠ .more) (c : Cursor) (s : σ) :
    Scans step c s (c.scan step s) :=
  scans_scanWithin hnone _ c s (Nat.le_refl _)

namespace Serves

variable {c c' : Cursor} {s s' : σ} {row : Row} {rows pulled : List Row}

/-- What is pulled from a cursor are the rows that it serves. -/
theorem of_fetch (h : c.Serves rows) (hfetch : c.fetch = (.ok (some row), c')) :
    ∃ rest, rows = row :: rest ∧ c'.Serves rest := by
  cases rows with
  | nil =>
    obtain ⟨c'', hnone, -⟩ := h.fetch_nil
    cases hfetch.symm.trans hnone
  | cons first rest =>
    obtain ⟨c'', hsome, hrest⟩ := h.fetch_cons
    cases hfetch.symm.trans hsome
    exact ⟨rest, rfl, hrest⟩

/-- The end is found only where no row is served. -/
theorem of_fetch_none (h : c.Serves rows) (hfetch : c.fetch = (.ok none, c')) :
    rows = [] ∧ c'.Serves [] := by
  cases rows with
  | nil =>
    obtain ⟨c'', hnone, hend⟩ := h.fetch_nil
    cases hfetch.symm.trans hnone
    exact ⟨rfl, hend⟩
  | cons first rest =>
    obtain ⟨c'', hsome, -⟩ := h.fetch_cons
    cases hfetch.symm.trans hsome

/-- What was pulled is the front of what was served. -/
theorem of_pulls (h : c.Serves rows) (hpulls : Pulls c pulled c') :
    ∃ rest, rows = pulled ++ rest ∧ c'.Serves rest := by
  induction hpulls generalizing rows with
  | nil => exact ⟨rows, rfl, h⟩
  | cons head tail ih =>
    obtain ⟨rest, rfl, hrest⟩ := h.of_fetch head
    obtain ⟨others, rfl, hothers⟩ := ih hrest
    exact ⟨others, rfl, hothers⟩

/-- **A scan that succeeds** has pulled rows as long as its step asked for more, and then one on
which the step was done, or none. -/
theorem of_scans (h : c.Serves rows) (hscans : Scans step c s (.ok (), s', c')) :
    ∃ more s'' last rest, rows = more ++ last.toList ++ rest ∧ Continues step s more s'' ∧
      step s'' last = (s', .done) ∧ (last = none → rest = []) ∧ c'.Serves rest := by
  generalize hresult : (Except.ok (), s', c') = result at hscans
  induction hscans generalizing rows with
  | fault _ => cases hresult
  | fail _ _ => cases hresult
  | @done _ _ s _ last hfetch hstep =>
    cases hresult
    cases last with
    | none =>
      obtain ⟨rfl, hend⟩ := h.of_fetch_none hfetch
      exact ⟨[], s, none, [], rfl, .nil, hstep, fun _ => rfl, hend⟩
    | some row =>
      obtain ⟨rest, rfl, hrest⟩ := h.of_fetch hfetch
      exact ⟨[], s, some row, rest, rfl, .nil, hstep, (by cases ·), hrest⟩
  | @more _ _ _ _ row _ hfetch hstep _ ih =>
    obtain ⟨others, rfl, hothers⟩ := h.of_fetch hfetch
    obtain ⟨more, s'', last, rest, rfl, hcontinues, hdone, hnone, hserves⟩ := ih hothers hresult
    exact ⟨row :: more, s'', last, rest, rfl, .cons hstep hcontinues, hdone, hnone, hserves⟩

end Serves

end Cursor

end QueryPlans
