/-
A registry in service.

From outside a registry is asked for loggers, called through them, given another writer and
told that a drain has come to an end, in any order. This file follows a registry through
any number of such operations, together with what the writers that were replaced had handed
over. An operation that is a log adds its text at the end of what stands for the messages;
every other operation leaves that text as it is, so that after any run it is the text of
what was logged, message by message.
-/
import Logbook.Proofs.Registry.Access
import Logbook.Proofs.Registry.Delivery

set_option autoImplicit false

namespace Logbook

/-- What is done with a registry in service. A writer that is put in is a fresh one. -/
abbrev Operation {ω : Type} [Writer ω] (L : Ledger ω) : Type := Access L.Fresh

/-- A registry with what was handed over by the writers that were replaced. -/
structure Service (ω : Type) where
  registry : Registry ω
  archive : String

namespace Service

variable {ω : Type} [Writer ω] {L : Ledger ω} {style : Style}

def start (s : Settings) (w : L.Fresh) : Service ω := ⟨.new s w.val, ""⟩

/-- **One operation.** What a writer has handed over is archived when another takes its place. -/
def apply (p : Service ω) (op : Operation L) : Service ω :=
  ⟨p.registry.access (op.via fun w => w.val),
    match p.registry.installs op with
    | some _ => p.archive ++ L.handed p.registry.writer
    | none => p.archive⟩

theorem apply_of_idle {p : Service ω} (hidle : p.registry.emitter.isIdle = true) (w : L.Fresh) :
    p.apply (.setWriter w : Operation L)
      = ⟨{ p.registry with writer := w.val }, p.archive ++ L.handed p.registry.writer⟩ := by
  rw [apply, Access.via, Registry.access_of_idle hidle, Registry.installs_of_idle hidle]

theorem apply_of_not_idle {p : Service ω} (hidle : ¬ p.registry.emitter.isIdle = true)
    (w : L.Fresh) : p.apply (.setWriter w : Operation L) = p := by
  rw [apply, Access.via, Registry.access_of_not_idle hidle, Registry.installs_of_not_idle hidle]

def run (p : Service ω) (ops : List (Operation L)) : Service ω := ops.foldl apply p

/-- The registry in service is the registry that all of this is done with. -/
theorem registry_run (p : Service ω) (ops : List (Operation L)) :
    (p.run ops).registry = p.registry.accessAll (ops.map (.via fun w => w.val)) := by
  induction ops generalizing p with
  | nil => rfl
  | cons op ops ih => exact ih (p.apply op)

/-- The text that an operation stands for. Only a log has one. -/
def logText (style : Style) (p : Service ω) : Operation L → String
  | .call (.log logger level format args) =>
    p.registry.logText style logger level format args
  | _ => ""

/-- **The text of what is logged** by operations, each message with the context and the
clock of its time. -/
def logged (style : Style) : Service ω → List (Operation L) → String
  | _, [] => ""
  | p, op :: ops => p.logText style op ++ logged style (p.apply op) ops

/-! ## What stands for the messages -/

/-- **A service between two operations**, with the text that stands for its messages. -/
def Stands (L : Ledger ω) (style : Style) (p : Service ω) (text : String) : Prop :=
  ∃ waiting hot, p.registry.Sound L style waiting hot ∧ p.registry.Settled ∧
    p.archive ++ p.registry.delivery L style waiting hot = text

theorem stands_start (s : Settings) (w : L.Fresh) : (start s w).Stands L s.style "" := by
  obtain ⟨hsound, hsettled⟩ := Registry.sound_new s w
  refine ⟨[], [], hsound, hsettled, ?_⟩
  have hheld : L.held (start s w).registry.writer = "" := w.property.1
  have hhanded : L.handed (start s w).registry.writer = "" := w.property.2
  rw [Registry.delivery, hheld, hhanded]
  rfl

/-- A call that starts no run and records nothing stands for nothing. -/
theorem Stands.keeps {p : Service ω} {text : String} (h : p.Stands L style text)
    {r : Registry ω} (hkeeps : p.registry.Keeps r) :
    Stands L style { p with registry := r } text := by
  obtain ⟨waiting, hot, hsound, hsettled, htext⟩ := h
  obtain ⟨hsound', hsettled', hdelivery, -⟩ := hsound.keeps hkeeps
  exact ⟨waiting, hot, hsound', hsettled' hsettled, by rw [← htext, hdelivery]⟩

/-- Messages that are moved on stand for the same text. -/
theorem Stands.flush {p : Service ω} {text : String} (h : p.Stands L style text) :
    Stands L style { p with registry := p.registry.flush.1 } text := by
  obtain ⟨waiting, hot, hsound, hsettled, rfl⟩ := h
  obtain ⟨waiting', hot', h⟩ := (hsound.flush hsettled).advances hsound hsettled
  exact ⟨waiting', hot', h.sound, h.settled, by rw [h.delivery]⟩

theorem Stands.close {p : Service ω} {text : String} (h : p.Stands L style text) :
    Stands L style { p with registry := p.registry.close.1 } text := by
  obtain ⟨waiting, hot, hsound, hsettled, rfl⟩ := h
  obtain ⟨waiting', hot', h, -⟩ := (hsound.close hsettled).advances hsound.closing hsettled
  refine ⟨waiting', hot', h.sound, h.settled, ?_⟩
  show p.archive ++ p.registry.close.1.delivery L style waiting' hot' = _
  rw [h.delivery]
  rfl

/-- **An operation adds the text that it stands for.** -/
theorem Stands.apply {p : Service ω} {text : String} (h : p.Stands L style text)
    (op : Operation L) : (p.apply op).Stands L style (text ++ p.logText style op) := by
  have hsame : p.logText style op = "" → (p.apply op).Stands L style text →
      (p.apply op).Stands L style (text ++ p.logText style op) := by
    intro hnone h'
    rw [hnone, String.append_empty]
    exact h'
  cases op with
  | logger name level =>
    exact hsame rfl (h.keeps (Registry.keeps_logger p.registry name level))
  | call c =>
    cases c with
    | log logger level format args =>
      obtain ⟨waiting, hot, hsound, hsettled, rfl⟩ := h
      obtain ⟨hot', hsound', hsettled', hdelivery⟩ :=
        hsound.log hsettled logger level format args
      refine ⟨waiting, hot', hsound', hsettled', ?_⟩
      show p.archive ++ (p.registry.log logger level format args).delivery _ _ _ _ = _
      rw [hdelivery, String.append_assoc]
      rfl
    | flush => exact hsame rfl h.flush
    | close => exact hsame rfl h.close
    | _ => exact hsame rfl (h.keeps (Registry.keeps_answer fun hlog => absurd hlog (by simp [Call.isLog])))
  | setWriter w =>
    refine hsame rfl ?_
    obtain ⟨waiting, hot, hsound, hsettled, rfl⟩ := h
    by_cases hidle : p.registry.emitter.isIdle = true
    · rw [apply_of_idle hidle]
      -- nothing is held between runs, so nothing is lost with the writer that goes
      refine ⟨waiting, hot, ?_, hsettled, ?_⟩
      · exact ⟨hsound.free, ⟨hsound.wide.fresh, hsound.wide.loggers⟩, hsound.style, hsound.hot,
          hsound.rests, w.property.1⟩
      · simp only [Registry.delivery, Registry.passing, hsound.held, w.property.1, w.property.2,
          String.append_assoc, String.append_empty, String.empty_append]
    · rw [apply_of_not_idle hidle]
      exact ⟨waiting, hot, hsound, hsettled, rfl⟩
  | settle outcome =>
    refine hsame rfl ?_
    obtain ⟨waiting, hot, hsound, hsettled, rfl⟩ := h
    obtain ⟨hsound', hsettled', -⟩ := hsound.settle hsettled outcome
    exact ⟨waiting, hot, hsound', hsettled', rfl⟩

/-- **So do operations one after the other.** -/
theorem Stands.run {p : Service ω} {text : String} (h : p.Stands L style text)
    (ops : List (Operation L)) : (p.run ops).Stands L style (text ++ p.logged style ops) := by
  induction ops generalizing p text with
  | nil =>
    rw [logged, String.append_empty]
    exact h
  | cons op ops ih =>
    rw [logged, ← String.append_assoc]
    exact ih (h.apply op)

/-- **After any run the messages stand for the text of what was logged.** -/
theorem stands_logged (s : Settings) (w : L.Fresh) (ops : List (Operation L)) :
    ((start s w).run ops).Stands L s.style ((start s w).logged s.style ops) := by
  have hrun := (stands_start s w).run ops
  rwa [String.empty_append] at hrun

/-- **Every message is delivered once and in order.** For any settings, any writers that hand
over what they hold and any operations: what was handed over, then what is held, then the
messages of the run under way that are not printed yet, then those of the hot buffer that
are to be written are together the text of what was logged. -/
theorem delivered_in_order (L : Ledger ω) (s : Settings) (w : L.Fresh)
    (ops : List (Operation L)) :
    let p := (start s w).run ops
    ∃ waiting hot : List Message, p.registry.Retains waiting hot ∧
      p.archive ++ L.handed p.registry.writer ++ L.held p.registry.writer
          ++ Message.printAll s.style waiting
          ++ Message.printAll s.style (hot.filter (·.level.passes p.registry.writeLevel))
        = (start s w).logged s.style ops := by
  obtain ⟨waiting, hot, hsound, -, htext⟩ := stands_logged s w ops
  refine ⟨waiting, hot, hsound.retains, ?_⟩
  rw [← htext, Registry.delivery, Registry.passing]
  simp only [String.append_assoc]

end Service

end Logbook
