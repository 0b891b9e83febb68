/-
Closing a registry.

A close flushes until nothing is left, and it stops when a drain is outstanding. Three
flushes are enough: one goes on with a run that was suspended, one writes what was recorded
meanwhile, and one finds nothing. When a drain holds a close up, closing again after it goes
on where the last one stopped. Each such round uses up one of the drains that can hold up
what is left, so that after as many rounds as these are the registry is closed.

Nothing is asked of the writer here. It may give its text away, keep it or lose it, so what
is followed is what it was given: a recorded writer notes that next to the writer itself.
-/
import Logbook.Proofs.Registry.Recorded

set_option autoImplicit false

namespace Logbook

namespace Registry

variable {ω : Type} [Writer ω] {L : Ledger ω} {style : Style}

/-! ## Three flushes -/

/-- Flushes until nothing is left to write or a drain is outstanding, but not more than a
number of times. -/
def flushWithin : Nat → Registry ω → Option (Registry ω × FlushResult)
  | 0, _ => none
  | n + 1, r =>
    match r.flush with
    | (r, .done) => flushWithin n r
    | (r, .empty) => some (r, .done)
    | (r, .pending) => some (r, .pending)

/-- With a number of flushes to spare nothing else happens than without a limit. -/
theorem flushWithin_succ {r : Registry ω} {n : Nat}
    (h : r.flush.2 = .done → flushWithin n r.flush.1 = some r.flush.1.flushAll) :
    flushWithin (n + 1) r = some r.flushAll := by
  rw [flushWithin, flushAll_eq]
  generalize r.flush = result at h
  obtain ⟨r', outcome⟩ := result
  cases outcome with
  | done => exact h rfl
  | empty | pending => rfl

/-- **Three flushes are enough.** The first may finish a run that was suspended, the second
finds the registry between runs, and the third finds nothing left. -/
theorem Sound.flushWithin_three {r : Registry ω} {waiting hot : List Message}
    (h : r.Sound L style waiting hot) (hsettled : r.Settled) :
    flushWithin 3 r = some r.flushAll := by
  refine flushWithin_succ fun hfirst => flushWithin_succ fun hsecond => flushWithin_succ fun hthird => ?_
  have hflushed := h.flush hsettled
  generalize r.flush = result at hflushed hfirst hsecond hthird
  cases hflushed with
  | waiting hwaits => simp at hfirst
  | empty r₁ h₁ hidle₁ => simp at hfirst
  | suspended r₁ left hot₁ h₁ hwaits hholdups => simp at hfirst
  | done r₁ hot₁ h₁ hidle₁ hnew₁ hholdups₁ =>
    have hflushed₁ := h₁.sound.flush h₁.settled
    dsimp only at hsecond hthird
    generalize r₁.flush = result at hflushed₁ hsecond hthird
    cases hflushed₁ with
    | waiting hwaits => simp at hsecond
    | empty r₂ h₂ hidle₂ => simp at hsecond
    | suspended r₂ left hot₂ h₂ hwaits hholdups => simp at hsecond
    | done r₂ hot₂ h₂ hidle₂ hnew₂ hholdups₂ =>
      -- the second run was a new one, so it has taken all of the hot buffer with it
      obtain rfl := (hnew₂ hidle₁).2
      have hflushed₂ := h₂.sound.flush h₂.settled
      dsimp only at hthird
      generalize r₂.flush = result at hflushed₂ hthird
      cases hflushed₂ with
      | waiting hwaits => simp at hthird
      | empty r₃ h₃ hidle₃ => simp at hthird
      | suspended r₃ left hot₃ h₃ hwaits hholdups => simp at hthird
      | done r₃ hot₃ h₃ hidle₃ hnew₃ hholdups₃ => exact absurd rfl (hnew₃ hidle₂).1

/-! ## Closing again -/

/-- Closes, and closes again each time that the drain in between has come to an end. The
result is that of the last close. -/
def closeAfter (r : Registry ω) : List Signal → Registry ω × FlushResult
  | [] => r.close
  | outcome :: outcomes => (r.close.1.settle outcome).closeAfter outcomes

/-- **Rounds enough close a registry**, and with it everything is written. The induction is on
the rounds: one that does not come to the end leaves fewer drains to wait for. -/
theorem Sound.closeAfter {r : Registry ω} {waiting hot : List Message}
    (h : r.Sound L style waiting hot) (hsettled : r.Settled) {outcomes : List Signal}
    (houtcomes : ∀ outcome ∈ outcomes, outcome ≠ .outstanding)
    (hready : r.emitter.isWaiting = false) (hless : r.holdups waiting hot ≤ outcomes.length) :
    ∃ r', r.closeAfter outcomes = (r', .done) ∧ r'.Sound L style [] [] ∧
      r'.delivery L style [] [] = r.delivery L style waiting hot := by
  induction outcomes generalizing r waiting hot with
  | nil =>
    have hclosed := h.close hsettled
    rw [Registry.closeAfter]
    generalize r.close = result at hclosed
    cases hclosed with
    | waiting hwaits => exact absurd hwaits (by simp [hready])
    | done r' h' hidle => exact ⟨r', rfl, h'.sound, h'.delivery⟩
    | suspended r' left hot' h' hwaits hholdups =>
      have hfewer : r'.holdups left hot' < r.holdups waiting hot := hholdups
      rw [List.length_nil] at hless
      omega
  | cons outcome outcomes ih =>
    have hclosed := h.close hsettled
    have hrest : ∀ o ∈ outcomes, o ≠ .outstanding := fun o ho =>
      houtcomes o (List.mem_cons_of_mem outcome ho)
    have houtcome := houtcomes outcome List.mem_cons_self
    -- whatever this close came to, the rounds that are left do the rest
    have hround : ∀ {r' : Registry ω} {waiting' hot' : List Message},
        Advances L style { r with closed := true } waiting hot r' waiting' hot' →
        r'.holdups waiting' hot' ≤ outcomes.length →
        ∃ r'', (r'.settle outcome).closeAfter outcomes = (r'', .done) ∧
          r''.Sound L style [] [] ∧ r''.delivery L style [] [] = r.delivery L style waiting hot := by
      intro r' waiting' hot' h' hholdups
      obtain ⟨hsound, hsettled', hsame⟩ := h'.sound.settle h'.settled outcome
      obtain ⟨r'', hclose, hsound', hdelivery⟩ := ih hsound hsettled' hrest
        (Emitter.isWaiting_settle r'.emitter houtcome) (hsame ▸ hholdups)
      exact ⟨r'', hclose, hsound', hdelivery.trans h'.delivery⟩
    rw [Registry.closeAfter]
    generalize r.close = result at hclosed
    cases hclosed with
    | waiting hwaits => exact absurd hwaits (by simp [hready])
    | done r' h' hidle =>
      refine hround h' ?_
      simp [holdups, runHoldups, hidle, passing]
    | suspended r' left hot' h' hwaits hholdups =>
      have hfewer : r'.holdups left hot' < r.holdups waiting hot := hholdups
      have hrest' : r'.holdups left hot' ≤ outcomes.length := by
        rw [List.length_cons] at hless
        omega
      exact hround h' hrest'

/-- So it takes at most three rounds more than there are messages: one for a drain that is
outstanding already and one for the end of either run. -/
theorem Sound.closeAfter_of_length {r : Registry ω} {waiting hot : List Message}
    (h : r.Sound L style waiting hot) (hsettled : r.Settled) {outcomes : List Signal}
    (houtcomes : ∀ outcome ∈ outcomes, outcome ≠ .outstanding)
    (hless : waiting.length + hot.length + 3 ≤ outcomes.length) :
    ∃ r', r.closeAfter outcomes = (r', .done) ∧ r'.Sound L style [] [] ∧
      r'.delivery L style [] [] = r.delivery L style waiting hot := by
  have hpassing : (r.passing hot).length ≤ hot.length := List.length_filter_le _ _
  have hholdups : r.holdups waiting hot ≤ waiting.length + hot.length + 2 := by
    unfold holdups runHoldups
    split <;> split <;> omega
  cases outcomes with
  | nil => simp at hless
  | cons outcome outcomes =>
    -- the first close may find a drain outstanding and then does nothing, but it costs nothing
    obtain ⟨waiting', hot', hadvances, hholdups'⟩ :=
      (h.close hsettled).advances h.closing hsettled
    obtain ⟨hsound, hsettled', hsame⟩ := hadvances.sound.settle hadvances.settled outcome
    have hready : (r.close.1.settle outcome).emitter.isWaiting = false :=
      Emitter.isWaiting_settle _ (houtcomes outcome List.mem_cons_self)
    have hbefore : ({ r with closed := true } : Registry ω).holdups waiting hot
      = r.holdups waiting hot := rfl
    rw [List.length_cons] at hless
    obtain ⟨r', hclose, hsound', hdelivery⟩ := hsound.closeAfter hsettled'
      (fun o ho => houtcomes o (List.mem_cons_of_mem outcome ho)) hready (by omega)
    exact ⟨r', hclose, hsound', hdelivery.trans hadvances.delivery⟩

/-! ## A closed registry -/

/-- **A registry that is closed** and has nothing left. -/
structure Stopped (r : Registry ω) : Prop where
  closed : r.closed = true
  free : r.busy = false
  idle : r.emitter.isIdle = true
  hot : r.hot.slots = []
  pending : r.pending.slots = []

omit [Writer ω] in
theorem Stopped.keeps {r s : Registry ω} (h : r.Stopped) (hkeeps : r.Keeps s) : s.Stopped :=
  ⟨hkeeps.closed.trans h.closed, hkeeps.busy.trans h.free, hkeeps.emitter ▸ h.idle,
    hkeeps.hot ▸ h.hot, hkeeps.pending ▸ h.pending⟩

/-- There is nothing to flush, and the writer is not called. -/
theorem Stopped.flush {r : Registry ω} (h : r.Stopped) :
    r.flush = ({ r with hot := r.hot.clear }, .empty) := by
  have hhot : r.hot.slots = ([] : List Message).flatMap Message.slots := h.hot
  exact flush_of_nothing h.free h.idle h.pending hhot rfl

/-- **Closing again is done at once**, and the writer is not called. -/
theorem Stopped.close {r : Registry ω} (h : r.Stopped) :
    r.close = ({ r with hot := r.hot.clear }, .done) := by
  have hsame : ({ r with closed := true } : Registry ω) = r := by rw [← h.closed]
  rw [Registry.close, if_neg (by simp [h.free]), hsame, flushAll_eq, h.flush]

omit [Writer ω] in
theorem Stopped.cleared {r : Registry ω} (h : r.Stopped) :
    ({ r with hot := r.hot.clear } : Registry ω).Stopped :=
  ⟨h.closed, h.free, h.idle, Buffer.slots_clear _, h.pending⟩

end Registry

/-! ## Service after a close -/

namespace Service

variable {ω : Type} [Writer ω] {L : Ledger ω} {style : Style}

/-- **A registry that is closed stays closed.** -/
theorem Stands.closed_apply {p : Service ω} {text : String} (h : p.Stands L style text)
    (hclosed : p.registry.closed = true) (op : Operation L) :
    (p.apply op).registry.closed = true := by
  obtain ⟨waiting, hot, hsound, hsettled, -⟩ := h
  cases op with
  | logger name level => exact (Registry.keeps_logger p.registry name level).closed.trans hclosed
  | call c =>
    cases c with
    | flush =>
      obtain ⟨waiting', hot', hadvances⟩ := (hsound.flush hsettled).advances hsound hsettled
      exact hadvances.closed.trans hclosed
    | close =>
      obtain ⟨waiting', hot', hadvances, -⟩ :=
        (hsound.close hsettled).advances hsound.closing hsettled
      exact hadvances.closed
    | _ => exact (Registry.keeps_answer fun _ => .inr hclosed).closed.trans hclosed
  | setWriter w =>
    by_cases hidle : p.registry.emitter.isIdle = true
    · rw [apply_of_idle hidle]
      exact hclosed
    · rw [apply_of_not_idle hidle]
      exact hclosed
  | settle outcome => exact hclosed

/-- **Nothing more is logged** once a registry is closed. -/
theorem Stands.logged_of_closed {p : Service ω} {text : String} (h : p.Stands L style text)
    (hclosed : p.registry.closed = true) (ops : List (Operation L)) :
    p.logged style ops = "" := by
  induction ops generalizing p text with
  | nil => rfl
  | cons op ops ih =>
    have hnone : p.logText style op = "" := by
      unfold logText
      split
      -- a log is the only operation with a text, and that of a closed registry is empty
      · rw [Registry.logText, if_neg (by simp [hclosed])]
      · rfl
    rw [logged, ih (h.apply op) (h.closed_apply hclosed op), hnone, String.append_empty]

/-- **A registry that has nothing left stays so**, whatever is done with it. -/
theorem stopped_apply {p : Service ω} (h : p.registry.Stopped) (op : Operation L) :
    (p.apply op).registry.Stopped := by
  cases op with
  | logger name level => exact h.keeps (Registry.keeps_logger p.registry name level)
  | call c =>
    cases c with
    | flush =>
      show p.registry.flush.1.Stopped
      rw [h.flush]
      exact h.cleared
    | close =>
      show p.registry.close.1.Stopped
      rw [h.close]
      exact h.cleared
    | _ => exact h.keeps (Registry.keeps_answer fun _ => .inr h.closed)
  | setWriter w =>
    rw [apply_of_idle h.idle]
    exact ⟨h.closed, h.free, h.idle, h.hot, h.pending⟩
  | settle outcome =>
    exact ⟨h.closed, h.free, (Emitter.isIdle_settle _ _).trans h.idle, h.hot, h.pending⟩

theorem stopped_run {p : Service ω} (h : p.registry.Stopped) (ops : List (Operation L)) :
    (p.run ops).registry.Stopped := by
  induction ops generalizing p with
  | nil => exact h
  | cons op ops ih => exact ih (stopped_apply h op)

/-- Where nothing is left, all of the text was handed over. -/
theorem Stands.handed_of_stopped {p : Service ω} {text : String} (h : p.Stands L style text)
    (hstopped : p.registry.Stopped) : p.archive ++ L.handed p.registry.writer = text := by
  obtain ⟨waiting, hot, hsound, hsettled, rfl⟩ := h
  obtain rfl := hsound.waiting_of_idle hsettled hstopped.idle
  obtain rfl : hot = [] := Message.eq_nil_of_flatMap_slots (hsound.hot.symm.trans hstopped.hot)
  rw [Registry.delivery, hsound.held]
  simp [Registry.passing, Message.printAll]

/-! ### A close -/

def closed (p : Service ω) : Service ω := { p with registry := p.registry.close.1 }

theorem Stands.closed_closed {p : Service ω} {text : String} (h : p.Stands L style text) :
    p.closed.registry.closed = true := by
  obtain ⟨waiting, hot, hsound, hsettled, -⟩ := h
  obtain ⟨waiting', hot', hadvances, -⟩ := (hsound.close hsettled).advances hsound.closing hsettled
  exact hadvances.closed

/-- Whatever is done after a close, the text that stands for the messages stays. -/
theorem Stands.run_closed {p : Service ω} {text : String} (h : p.Stands L style text)
    (ops : List (Operation L)) : (p.closed.run ops).Stands L style text := by
  have hclose : p.closed.Stands L style text := h.close
  have hrun := hclose.run ops
  rwa [hclose.logged_of_closed h.closed_closed ops, String.append_empty] at hrun

/-- A close that is done leaves nothing. -/
theorem Stands.stopped_of_done {p : Service ω} {text : String} (h : p.Stands L style text)
    (hdone : p.registry.close.2 = .done) : p.closed.registry.Stopped := by
  obtain ⟨waiting, hot, hsound, hsettled, -⟩ := h
  have hclose := hsound.close hsettled
  unfold closed
  generalize p.registry.close = result at hclose hdone
  rcases hclose with hwaits | ⟨r', hadvances, hidle⟩ | ⟨r', left, hot', hadvances, hwaits, hless⟩
  · simp at hdone
  · exact ⟨hadvances.closed, hadvances.sound.free, hidle, hadvances.sound.hot,
      (hadvances.settled hidle).1⟩
  · simp at hdone

/-- A close that is not done waits for a drain. -/
theorem Stands.waiting_of_not_done {p : Service ω} {text : String} (h : p.Stands L style text)
    (hdone : p.registry.close.2 ≠ .done) :
    p.registry.close.2 = .pending ∧ p.registry.close.1.emitter.isWaiting = true := by
  obtain ⟨waiting, hot, hsound, hsettled, -⟩ := h
  have hclose := hsound.close hsettled
  generalize p.registry.close = result at hclose hdone
  rcases hclose with hwaits | ⟨r', hadvances, hidle⟩ | ⟨r', left, hot', hadvances, hwaits, hless⟩
  · exact ⟨rfl, hwaits⟩
  · exact absurd rfl hdone
  · exact ⟨rfl, hwaits⟩

/-- **A close loses nothing and comes to an end.** Take any writer, any settings and any
operations, let `r` be the registry they lead to, and close it.

* It takes three flushes at most.
* Either it is done: nothing is left, no run is under way and the text of what was logged was
  handed to the writers. Or a drain is outstanding: then what was not handed over is still in
  the pending buffer or in the hot one.
* Closing again after each drain is done in the end, and then everything is handed over. It
  takes at most three rounds more than there are messages left.
* Whatever is done after the close, nothing is added to the text.
* After a close that is done every other one is done at once, without the writer.
* The record by which the text is known makes no difference. The writers alone, with the same
  done to the registry, leave it in the same state, and so does the close, with the same result. -/
theorem close_loses_nothing (s : Settings) (w : ω)
    (ops : List (Operation (Recorded.ledger : Ledger (Recorded ω)))) :
    let p := (start s (Recorded.fresh w)).run ops
    let r := p.registry
    let text := (start s (Recorded.fresh w)).logged s.style ops
    Registry.flushWithin 3 { r with closed := true } = some r.close ∧
    ((r.close.2 = .done ∧ r.close.1.hot.slots = [] ∧ r.close.1.pending.slots = [] ∧
        r.close.1.emitter.isIdle = true ∧ p.archive ++ r.close.1.writer.handed = text) ∨
      (r.close.2 = .pending ∧ r.close.1.emitter.isWaiting = true ∧
        ∃ waiting hot, r.close.1.Retains waiting hot ∧
          p.archive ++ r.close.1.writer.handed ++ Message.printAll s.style waiting
            ++ Message.printAll s.style (r.close.1.passing hot) = text)) ∧
    (∃ waiting hot, r.Retains waiting hot ∧
      ∀ outcomes : List Signal, (∀ outcome ∈ outcomes, outcome ≠ .outstanding) →
        waiting.length + hot.length + 3 ≤ outcomes.length →
        (r.closeAfter outcomes).2 = .done ∧
          p.archive ++ (r.closeAfter outcomes).1.writer.handed = text) ∧
    (∀ more : List (Operation (Recorded.ledger : Ledger (Recorded ω))),
      let q := p.closed.run more
      ∃ waiting hot, q.registry.Retains waiting hot ∧
        q.archive ++ q.registry.writer.handed ++ q.registry.writer.held
          ++ Message.printAll s.style waiting
          ++ Message.printAll s.style (q.registry.passing hot) = text) ∧
    (r.close.2 = .done → ∀ more : List (Operation (Recorded.ledger : Ledger (Recorded ω))),
      let q := p.closed.run more
      q.registry.close = ({ q.registry with hot := q.registry.hot.clear }, .done) ∧
        q.archive ++ q.registry.writer.handed = text) ∧
    (let unrecorded := (Registry.new s w).accessAll (unrecorded ops)
     r.plain = unrecorded.quiet ∧ r.close.1.plain = unrecorded.close.1.quiet ∧
       r.close.2 = unrecorded.close.2) := by
  intro p r text
  have hstands : p.Stands Recorded.ledger s.style text := stands_logged s (Recorded.fresh w) ops
  have ⟨waiting, hot, hsound, hsettled, htext⟩ := hstands
  refine ⟨?_, ?_, ⟨waiting, hot, hsound.retains, ?_⟩, ?_, ?_, ?_⟩
  · have hfree : r.busy = false := hsound.free
    rw [Registry.close, if_neg (by simp [hfree])]
    exact hsound.closing.flushWithin_three hsettled
  · have hclose : p.closed.Stands Recorded.ledger s.style text := hstands.close
    by_cases hdone : r.close.2 = .done
    · have hleft := hstands.stopped_of_done hdone
      exact .inl ⟨hdone, hleft.hot, hleft.pending, hleft.idle, hclose.handed_of_stopped hleft⟩
    · obtain ⟨hpending, hwaits⟩ := hstands.waiting_of_not_done hdone
      obtain ⟨waiting', hot', hsound', -, htext'⟩ := hclose
      refine .inr ⟨hpending, hwaits, waiting', hot', hsound'.retains, ?_⟩
      rw [← htext', Registry.delivery, hsound'.held, String.append_empty]
      simp only [String.append_assoc]
      rfl
  · intro outcomes houtcomes hlength
    obtain ⟨r', hclose, hsound', hdelivery⟩ :=
      hsound.closeAfter_of_length hsettled houtcomes hlength
    rw [hclose]
    refine ⟨rfl, ?_⟩
    -- nothing waits and nothing is held, so that all of the delivery is handed over
    rw [← htext, ← hdelivery, Registry.delivery, hsound'.held]
    simp [Registry.passing, Message.printAll, Recorded.ledger]
  · intro more q
    obtain ⟨waiting', hot', hsound', -, htext'⟩ := hstands.run_closed more
    refine ⟨waiting', hot', hsound'.retains, ?_⟩
    rw [← htext', Registry.delivery]
    simp only [String.append_assoc]
    rfl
  · intro hdone more q
    have hq : q.registry.Stopped := stopped_run (hstands.stopped_of_done hdone) more
    exact ⟨hq.close, (hstands.run_closed more).handed_of_stopped hq⟩
  · have hecho := echoes_unrecorded s w ops
    exact ⟨hecho.quiet_eq, hecho.close.1.quiet_eq, hecho.close.2⟩

end Service

end Logbook
