/-
Formats are entered once, and stay.

What the loggers of a registry know is a catalogue: which format a logger has under a name. A
call is answered by the catalogue and changes it in one way, by entering a format under a name
that was free (`Catalogue.Answers`). So a chronicle of calls tells what a catalogue becomes, and
nothing that was entered is ever replaced.

A catalogue may change while a writer is drained, since formats can be registered at any time.
To have those calls in the chronicle too, a run is made once more with a writer that notes the
calls of its drains and the replies they get. It makes the same calls otherwise, so the run is
the same, and what is noted in it is what was done with the catalogue.
-/
import Logbook.Proofs.Registry.Unwritten

set_option autoImplicit false

namespace Logbook

/-! ## Catalogues -/

/-- **Which format a logger has under a name.** -/
abbrev Catalogue : Type := String → String → Option Format

/-- A call and the reply to it. -/
abbrev Answered : Type := Call × Reply

namespace Catalogue

/-- No logger has a format. -/
def blank : Catalogue := fun _ _ => none

/-- A catalogue with one format more. -/
def enter (F : Catalogue) (logger name : String) (f : Format) : Catalogue :=
  fun logger' name' => if logger' = logger ∧ name' = name then some f else F logger' name'

/-- **What a registration comes to.** A name that is taken is refused before the source is looked
at, and what is refused leaves the catalogue as it is. -/
inductive Takes (F : Catalogue) (logger name : String) (source : Source) :
    Option Refusal → Catalogue → Prop where
  | entered {f : Format} (hfree : F logger name = none) (hf : source.compile name = .ok f) :
    Takes F logger name source none (F.enter logger name f)
  | taken {f : Format} (htaken : F logger name = some f) :
    Takes F logger name source (some (.duplicateFormat logger name)) F
  | invalid {e : CompileError} (hfree : F logger name = none)
      (he : source.compile name = .error e) :
    Takes F logger name source (some (.compile e)) F

/-- **All templates of a list are entered**: their names are different and were free, the format
of each is found under its name, and nothing else is changed. -/
structure EntersAll (F : Catalogue) (logger : String) (templates : List (String × String))
    (F' : Catalogue) : Prop where
  distinct : (templates.map Prod.fst).Nodup
  free : ∀ t ∈ templates, F logger t.1 = none
  entered : ∀ t ∈ templates, ∃ f, (Source.template t.2).compile t.1 = .ok f ∧
    F' logger t.1 = some f
  others : ∀ logger' name', ¬ (logger' = logger ∧ name' ∈ templates.map Prod.fst) →
    F' logger' name' = F logger' name'

/-- **What the registration of several templates comes to**: all of them are entered, or those
before the first that is refused. That one is refused by the catalogue which has the others. -/
inductive TakesAll (F : Catalogue) (logger : String) :
    List (String × String) → Option Refusal → Catalogue → Prop where
  | all {templates : List (String × String)} {F' : Catalogue}
      (h : F.EntersAll logger templates F') : TakesAll F logger templates none F'
  | upTo {templates rest : List (String × String)} {name text : String} {why : Refusal}
      {F' : Catalogue} (h : F.EntersAll logger templates F')
      (hrefused : F'.Takes logger name (.template text) (some why) F') :
    TakesAll F logger (templates ++ (name, text) :: rest) (some why) F'

/-- **How a call is answered by a catalogue, and what it makes of it.** -/
inductive Answers (F : Catalogue) : Call → Reply → Catalogue → Prop where
  | register {logger name : String} {source : Source} {refusal : Option Refusal} {F' : Catalogue}
      (h : F.Takes logger name source refusal F') :
    Answers F (.register logger name source) (.registered refusal) F'
  | registerAll {logger : String} {templates : List (String × String)}
      {refusal : Option Refusal} {F' : Catalogue} (h : F.TakesAll logger templates refusal F') :
    Answers F (.registerAll logger templates) (.registered refusal) F'
  | hasFormat (logger name : String) :
    Answers F (.hasFormat logger name) (.flag (F logger name).isSome) F
  /-- All other calls leave the catalogue as it is. -/
  | other {c : Call} (reply : Reply) (hregisters : c.registers = false)
      (hasks : ∀ logger name, c ≠ .hasFormat logger name) : Answers F c reply F

/-- **What becomes of a catalogue** in the course of calls. -/
inductive Chronicle : Catalogue → List Answered → Catalogue → Prop where
  | nil (F : Catalogue) : Chronicle F [] F
  | cons {F F' F'' : Catalogue} {c : Call} {reply : Reply} {calls : List Answered}
      (h : F.Answers c reply F') (hrest : Chronicle F' calls F'') :
    Chronicle F ((c, reply) :: calls) F''

/-! ### What was entered stays -/

variable {F F' F'' : Catalogue} {logger name : String} {f : Format}

@[simp] theorem enter_self (F : Catalogue) (logger name : String) (f : Format) :
    F.enter logger name f logger name = some f := if_pos ⟨rfl, rfl⟩

theorem enter_of_ne (F : Catalogue) {logger' name' : String}
    (h : ¬ (logger' = logger ∧ name' = name)) :
    F.enter logger name f logger' name' = F logger' name' := if_neg h

/-- A catalogue that has all that another has. -/
def Extends (F' F : Catalogue) : Prop :=
  ∀ logger name f, F logger name = some f → F' logger name = some f

theorem Extends.refl (F : Catalogue) : F.Extends F := fun _ _ _ h => h

theorem Extends.trans (h : F'.Extends F) (h' : F''.Extends F') : F''.Extends F :=
  fun logger name f hf => h' logger name f (h logger name f hf)

/-- A format under a name that was free takes the place of none. -/
theorem Takes.grows {source : Source} {refusal : Option Refusal}
    (h : F.Takes logger name source refusal F') : F'.Extends F := by
  cases h with
  | @entered f hfree hf =>
    intro logger' name' g hg
    rw [enter_of_ne]
    · exact hg
    · rintro ⟨rfl, rfl⟩
      rw [hfree] at hg
      contradiction
  | taken htaken => exact .refl F
  | invalid hfree he => exact .refl F

theorem EntersAll.grows {templates : List (String × String)}
    (h : F.EntersAll logger templates F') : F'.Extends F := by
  intro logger' name' g hg
  rw [h.others logger' name', hg]
  rintro ⟨rfl, hname⟩
  obtain ⟨t, ht, rfl⟩ := List.mem_map.mp hname
  rw [h.free t ht] at hg
  contradiction

theorem TakesAll.grows {templates : List (String × String)} {refusal : Option Refusal}
    (h : F.TakesAll logger templates refusal F') : F'.Extends F := by
  cases h with
  | all h => exact h.grows
  | upTo h hrefused => exact h.grows

/-- **No call takes a format away**, or puts another in its place. -/
theorem Answers.grows {c : Call} {reply : Reply} (h : F.Answers c reply F') : F'.Extends F := by
  cases h with
  | register h => exact h.grows
  | registerAll h => exact h.grows
  | hasFormat logger name => exact .refl F
  | other reply hregisters hasks => exact .refl F

namespace Chronicle

variable {calls calls' : List Answered}

theorem grows (h : Chronicle F calls F') : F'.Extends F := by
  induction h with
  | nil F => exact .refl F
  | cons h _ ih => exact h.grows.trans ih

theorem append (h : Chronicle F calls F') (h' : Chronicle F' calls' F'') :
    Chronicle F (calls ++ calls') F'' := by
  induction h with
  | nil F => exact h'
  | cons h _ ih => exact .cons h (ih h')

theorem single {c : Call} {reply : Reply} (h : F.Answers c reply F') :
    Chronicle F [(c, reply)] F' := .cons h (.nil F')

/-- **A chronicle can be opened at any call.** -/
theorem split {c : Call} {reply : Reply}
    (h : Chronicle F (calls ++ (c, reply) :: calls') F'') :
    ∃ G G', Chronicle F calls G ∧ G.Answers c reply G' ∧ Chronicle G' calls' F'' := by
  induction calls generalizing F with
  | nil =>
    cases h with
    | cons h hrest => exact ⟨F, _, .nil F, h, hrest⟩
  | cons first calls ih =>
    cases h with
    | cons h hrest =>
      obtain ⟨G, G', hbefore, hcall, hafter⟩ := ih hrest
      exact ⟨G, G', .cons h hbefore, hcall, hafter⟩

end Chronicle

/-- A template that is entered before others that are. -/
theorem EntersAll.cons {text : String} {rest : List (String × String)}
    (hfree : F logger name = none) (hf : (Source.template text).compile name = .ok f)
    (h : (F.enter logger name f).EntersAll logger rest F') :
    F.EntersAll logger ((name, text) :: rest) F' := by
  -- the name is taken by now, so none of the others is the same
  have hnew : name ∉ rest.map Prod.fst := by
    intro hmem
    obtain ⟨t, ht, hname⟩ := List.mem_map.mp hmem
    have hnone := h.free t ht
    rw [hname, enter_self] at hnone
    contradiction
  have hne : ∀ t ∈ rest, t.1 ≠ name := fun t ht heq => hnew (List.mem_map.mpr ⟨t, ht, heq⟩)
  refine ⟨?_, ?_, ?_, ?_⟩
  · rw [List.map_cons, List.nodup_cons]
    exact ⟨hnew, h.distinct⟩
  · intro t ht
    rcases List.mem_cons.mp ht with rfl | ht
    · exact hfree
    · rw [← h.free t ht, enter_of_ne F fun hsame => hne t ht hsame.2]
  · intro t ht
    rcases List.mem_cons.mp ht with rfl | ht
    · refine ⟨f, hf, ?_⟩
      rw [h.others logger name fun hsame => hnew hsame.2, enter_self]
    · exact h.entered t ht
  · intro logger' name' hother
    rw [List.map_cons, List.mem_cons] at hother
    rw [h.others logger' name' fun hsame => hother ⟨hsame.1, .inr hsame.2⟩,
      enter_of_ne F fun hsame => hother ⟨hsame.1, .inl hsame.2⟩]

theorem EntersAll.nil (F : Catalogue) (logger : String) : F.EntersAll logger [] F where
  distinct := List.nodup_nil
  free := by simp
  entered := by simp
  others _ _ _ := rfl

theorem TakesAll.cons {text : String} {rest : List (String × String)} {refusal : Option Refusal}
    (hfree : F logger name = none) (hf : (Source.template text).compile name = .ok f)
    (h : (F.enter logger name f).TakesAll logger rest refusal F') :
    F.TakesAll logger ((name, text) :: rest) refusal F' := by
  cases h with
  | all h => exact .all (.cons hfree hf h)
  | upTo h hrefused => exact .upTo (.cons hfree hf h) hrefused

end Catalogue

/-! ## A call that starts no run -/

namespace Registry

variable {ω : Type}

/-- What the loggers of a registry know. A log looks its format up here. -/
def catalogue (r : Registry ω) : Catalogue := fun logger name => (r.loggerAt logger).formats.get? name

theorem catalogue_new (s : Settings) (w : ω) : (Registry.new s w).catalogue = .blank := rfl

/-- **To ask for a logger changes no format**, whether it is there or not. -/
theorem catalogue_logger (r : Registry ω) (name : String) (level : Option Level) :
    (r.logger name level).catalogue = r.catalogue := by
  funext logger name'
  have hput : ∀ l : Logger, l.formats = (r.loggerAt name).formats →
      ({ r with loggers := r.loggers.insert name l } : Registry ω).catalogue logger name'
        = r.catalogue logger name' := by
    intro l hl
    rw [catalogue, loggerAt_insert]
    split
    · rename_i hname
      rw [hl, hname]
      rfl
    · rfl
  unfold Registry.logger
  cases hget : r.loggers.get? name with
  | some l => exact hput _ (by rw [loggerAt, hget]; rfl)
  | none => exact hput _ (by rw [loggerAt, hget]; rfl)

theorem catalogue_addFormat (r : Registry ω) (logger name : String) (f : Format) :
    (r.addFormat logger name f).catalogue = r.catalogue.enter logger name f := by
  funext logger' name'
  rw [catalogue, addFormat, loggerAt_insert, Catalogue.enter]
  by_cases hlogger : logger' = logger
  · rw [if_pos hlogger, Named.get?_insert, hlogger]
    simp only [true_and]
    rfl
  · rw [if_neg hlogger, if_neg fun hsame => hlogger hsame.1]
    rfl

/-- **A registration** is one of the catalogue. -/
theorem takes_register (r : Registry ω) (logger name : String) (source : Source) :
    r.catalogue.Takes logger name source (r.register logger name source).2
      (r.register logger name source).1.catalogue := by
  unfold register
  by_cases htaken : r.hasFormat logger name = true
  · obtain ⟨f, hf⟩ := Option.isSome_iff_exists.mp htaken
    rw [if_pos htaken]
    exact .taken hf
  · have hfree : r.catalogue logger name = none := Option.not_isSome_iff_eq_none.mp htaken
    rw [if_neg htaken]
    cases hcompile : source.compile name with
    | ok f =>
      show r.catalogue.Takes logger name source none (r.addFormat logger name f).catalogue
      rw [catalogue_addFormat]
      exact .entered hfree hcompile
    | error e => exact .invalid hfree hcompile

/-- **So are several**, up to the first that is refused. The induction is on the list, and the
catalogue that refuses one has those before it. -/
theorem takesAll_registerAll (r : Registry ω) (logger : String)
    (templates : List (String × String)) :
    r.catalogue.TakesAll logger templates (r.registerAll logger templates).2
      (r.registerAll logger templates).1.catalogue := by
  induction templates generalizing r with
  | nil => exact .all (.nil r.catalogue logger)
  | cons entry rest ih =>
    obtain ⟨name, text⟩ := entry
    have hfirst := r.takes_register logger name (.template text)
    unfold registerAll
    generalize r.register logger name (.template text) = result at hfirst
    obtain ⟨r', refusal⟩ := result
    cases refusal with
    | none =>
      have hrest := ih r'
      dsimp only at hfirst
      generalize hnow : r'.catalogue = F' at hfirst hrest
      cases hfirst with
      | entered hfree hf => exact .cons hfree hf hrest
    | some why =>
      dsimp only at hfirst ⊢
      have hsame : r'.catalogue = r.catalogue := by
        generalize r'.catalogue = F' at hfirst
        cases hfirst <;> rfl
      rw [hsame] at hfirst ⊢
      exact .upTo (.nil r.catalogue logger) hfirst

theorem catalogue_log (r : Registry ω) (logger : String) (level : Level) (format : String)
    (args : Arguments) : (r.log logger level format args).catalogue = r.catalogue := by
  unfold log
  split
  · split
    · rfl
    · split
      · rfl
      · split <;> rfl
  · rfl

theorem catalogue_modifyContext (r : Registry ω) (logger : String) (g : Context → Context) :
    (r.modifyContext logger g).catalogue = r.catalogue := by
  unfold modifyContext
  split <;> rfl

theorem catalogue_dump (r : Registry ω) (logger : String) :
    (r.dump logger).1.catalogue = r.catalogue := by
  unfold dump
  split <;> rfl

/-- **A call that starts no run is answered by the catalogue**, whether the registry is busy or
not. -/
theorem answers_answer (r : Registry ω) (c : Call) :
    r.catalogue.Answers c (r.answer c).2 (r.answer c).1.catalogue := by
  have hother : ∀ reply, c.registers = false → (∀ logger name, c ≠ .hasFormat logger name) →
      (r.answer c).1.catalogue = r.catalogue →
      r.catalogue.Answers c reply (r.answer c).1.catalogue := by
    intro reply hregisters hasks hsame
    rw [hsame]
    exact .other reply hregisters hasks
  cases c with
  | register logger name source => exact .register (r.takes_register logger name source)
  | registerAll logger templates => exact .registerAll (r.takesAll_registerAll logger templates)
  | hasFormat logger name => exact .hasFormat logger name
  | log logger level format args =>
    exact hother _ rfl (by simp) (r.catalogue_log logger level format args)
  | tick logger | setRequestId logger id | setCallbackId logger id =>
    exact hother _ rfl (by simp) (r.catalogue_modifyContext logger _)
  | dump logger => exact hother _ rfl (by simp) (r.catalogue_dump logger)
  | isEnabled | memoryLevel | describe | describeLogger | flush | close =>
    exact hother _ rfl (by simp) rfl

end Registry

/-! ## Writers that note the calls of their drains -/

/-- **A writer with notes** of the calls that its drains have made, and of the replies. -/
structure Noting (ω : Type) where
  inner : ω
  notes : List Answered

namespace Noting

variable {ω : Type}

def new (w : ω) : Noting ω := ⟨w, []⟩

/-- A drain that goes on noting its calls. -/
def noting (notes : List Answered) : Reentry (ω × Signal) → Reentry (Noting ω × Signal)
  | .done (w, signal) => .done (⟨w, notes⟩, signal)
  | .report d next => .report d (noting notes next)
  | .call c next => .call c fun reply => noting (notes ++ [(c, reply)]) (next reply)

instance [Writer ω] : Writer (Noting ω) where
  emit w text := { w with inner := Writer.emit w.inner text }
  wantsDrain w := Writer.wantsDrain w.inner
  drain w := noting w.notes (Writer.drain w.inner)

theorem covers_noting (notes : List Answered) (p : Reentry (ω × Signal)) :
    (noting notes p).Covers (Prod.map Noting.inner id) p := by
  induction p generalizing notes with
  | done a =>
    obtain ⟨w, signal⟩ := a
    exact .done ((⟨w, notes⟩ : Noting ω), signal)
  | report d next ih => exact .report d (ih notes)
  | call c next ih => exact .call c fun reply => ih reply (notes ++ [(c, reply)])

/-- **Notes make no difference**: a writer that takes them does what it does without them. -/
def covering (ω : Type) [Writer ω] : Covering (Noting ω) ω where
  view := Noting.inner
  emit _ _ := rfl
  wantsDrain _ := rfl
  drain w := covers_noting w.notes (Writer.drain w.inner)

end Noting

namespace Registry

variable {ω : Type}

/-- **What was noted between two registries** is what became of the catalogue. -/
def Noted (r s : Registry (Noting ω)) (calls : List Answered) : Prop :=
  s.writer.notes = r.writer.notes ++ calls ∧
    Catalogue.Chronicle r.catalogue calls s.catalogue

theorem noted_nil {r s : Registry (Noting ω)} (hnotes : s.writer.notes = r.writer.notes)
    (hcatalogue : s.catalogue = r.catalogue) : r.Noted s [] := by
  refine ⟨by rw [hnotes, List.append_nil], ?_⟩
  rw [hcatalogue]
  exact .nil r.catalogue

theorem Noted.trans {r s t : Registry (Noting ω)} {calls calls' : List Answered}
    (h : r.Noted s calls) (h' : s.Noted t calls') : r.Noted t (calls ++ calls') := by
  refine ⟨?_, h.2.append h'.2⟩
  rw [h'.1, h.1, List.append_assoc]

/-- **A drain notes what it does to the catalogue**, call by call. -/
theorem chronicle_noting (p : Reentry (ω × Signal)) (notes : List Answered)
    (r : Registry (Noting ω)) :
    let drained := (Noting.noting notes p).run report answer r
    ∃ calls, drained.2.1.notes = notes ++ calls ∧
      Catalogue.Chronicle r.catalogue calls drained.1.catalogue := by
  induction p generalizing notes r with
  | done a => exact ⟨[], (List.append_nil notes).symm, .nil r.catalogue⟩
  | report d next ih => exact ih notes (r.report d)
  | call c next ih =>
    obtain ⟨calls, hnotes, hchronicle⟩ :=
      ih (r.answer c).2 (notes ++ [(c, (r.answer c).2)]) (r.answer c).1
    refine ⟨(c, (r.answer c).2) :: calls, ?_, .cons (r.answers_answer c) hchronicle⟩
    rw [List.append_cons]
    exact hnotes

variable [Writer ω]

theorem noted_run (r : Registry (Noting ω)) : ∃ calls, r.Noted r.run.1 calls := by
  refine Emitter.resume_keeps (P := fun s : Registry (Noting ω) => ∃ calls, r.Noted s calls)
    ?_ ?_ ?_ r.emitter r.pending { r with busy := true } ⟨[], noted_nil rfl rfl⟩
  · exact fun s text h => h
  · exact fun s d h => h
  · rintro s ⟨calls, h⟩
    obtain ⟨calls', hnotes, hchronicle⟩ :=
      chronicle_noting (Writer.drain s.writer.inner) s.writer.notes s
    exact ⟨calls ++ calls', h.trans ⟨hnotes, hchronicle⟩⟩

theorem noted_flush (r : Registry (Noting ω)) : ∃ calls, r.Noted r.flush.1 calls := by
  have hrefill : r.Noted r.refill [] := by
    unfold refill
    split <;> exact noted_nil rfl rfl
  unfold flush
  split
  · exact ⟨[], noted_nil rfl rfl⟩
  · dsimp only
    split
    · exact ⟨[], hrefill⟩
    · obtain ⟨calls, hrun⟩ := r.refill.noted_run
      exact ⟨[] ++ calls, hrefill.trans hrun⟩

theorem noted_flushAll (r : Registry (Noting ω)) : ∃ calls, r.Noted r.flushAll.1 calls := by
  fun_induction flushAll r with
  | case1 r r' hflush ih =>
    obtain ⟨calls, hfirst⟩ := r.noted_flush
    obtain ⟨calls', hrest⟩ := ih
    rw [hflush] at hfirst
    exact ⟨calls ++ calls', hfirst.trans hrest⟩
  | case2 r r' hflush | case3 r r' hflush =>
    have hfirst := r.noted_flush
    rwa [hflush] at hfirst

theorem noted_close (r : Registry (Noting ω)) : ∃ calls, r.Noted r.close.1 calls := by
  unfold close
  split
  · exact ⟨[], noted_nil rfl rfl⟩
  · exact noted_flushAll { r with closed := true }

/-- **A call does to the catalogue what was noted while it was answered**, and then what its
reply says. -/
theorem chronicle_call (r : Registry (Noting ω)) (c : Call) :
    ∃ calls, (r.call c).1.writer.notes = r.writer.notes ++ calls ∧
      Catalogue.Chronicle r.catalogue (calls ++ [(c, (r.call c).2)]) (r.call c).1.catalogue := by
  have hrun : ∀ {s : Registry (Noting ω)} (reply : Reply), (∃ calls, r.Noted s calls) →
      c = .flush ∨ c = .close → ∃ calls, s.writer.notes = r.writer.notes ++ calls ∧
        Catalogue.Chronicle r.catalogue (calls ++ [(c, reply)]) s.catalogue := by
    rintro s reply ⟨calls, hnotes, hchronicle⟩ hc
    refine ⟨calls, hnotes, hchronicle.append (.single (.other reply ?_ ?_))⟩
    · rcases hc with rfl | rfl <;> rfl
    · rcases hc with rfl | rfl <;> simp
  have hanswer : ∃ calls, (r.answer c).1.writer.notes = r.writer.notes ++ calls ∧
      Catalogue.Chronicle r.catalogue (calls ++ [(c, (r.answer c).2)]) (r.answer c).1.catalogue := by
    refine ⟨[], ?_, .single (r.answers_answer c)⟩
    rw [writer_answer, List.append_nil]
  cases c with
  | flush => exact hrun _ r.noted_flush (.inl rfl)
  | close => exact hrun _ r.noted_close (.inr rfl)
  | _ => exact hanswer

end Registry

/-! ## Everything that is called in a run -/

namespace Host

variable {ω : Type} [Writer ω]

/-- The calls that are answered while something is done: those of the drains, and then the one
that is made from outside, if it is a call. -/
def answered (p : Host (Noting ω)) : Access (Noting ω) → List Answered
  | .call c =>
    (p.registry.call c).1.writer.notes.drop p.registry.writer.notes.length
      ++ [(c, (p.registry.call c).2)]
  | .logger _ _ | .setWriter _ | .settle _ => []

/-- **All calls of a run with their replies**, in the order in which they were answered. -/
def history : Host (Noting ω) → List (Access (Noting ω)) → List Answered
  | _, [] => []
  | p, a :: rest => p.answered a ++ history (p.access a) rest

theorem chronicle_access (p : Host (Noting ω)) (a : Access (Noting ω)) :
    Catalogue.Chronicle p.registry.catalogue (p.answered a) (p.access a).registry.catalogue := by
  rw [registry_access]
  cases a with
  | logger name level =>
    rw [Registry.access, Registry.catalogue_logger]
    exact .nil _
  | call c =>
    obtain ⟨calls, hnotes, hchronicle⟩ := p.registry.chronicle_call c
    rw [answered, hnotes, List.drop_left]
    exact hchronicle
  | setWriter w =>
    by_cases hidle : p.registry.emitter.isIdle = true
    · rw [Registry.access_of_idle hidle]
      exact .nil _
    · rw [Registry.access_of_not_idle hidle]
      exact .nil _
  | settle outcome => exact .nil _

/-- **The history of a run is the chronicle of its catalogue.** -/
theorem chronicle_history (p : Host (Noting ω)) (accesses : List (Access (Noting ω))) :
    Catalogue.Chronicle p.registry.catalogue (p.history accesses)
      (p.run accesses).registry.catalogue := by
  induction accesses generalizing p with
  | nil => exact .nil _
  | cons a rest ih => exact (p.chronicle_access a).append (ih (p.access a))

/-- **A run that is noted is the same run**: its registry is the same but for the notes, and so is
what comes out of it. -/
theorem echoes_noting {level : Level} {p : Host (Noting ω)} {p' : Host ω}
    (h : p.registry.Echoes (.exact level) (Noting.covering ω).view p'.registry)
    (accesses : List (Access ω)) :
    let noted := accesses.map (.via Noting.new)
    (p.run noted).registry.Echoes (.exact level) (Noting.covering ω).view
        (p'.run accesses).registry ∧
      (p.outcomes (fun _ => true) noted).map (.via Noting.inner)
        = p'.outcomes (fun _ => true) accesses := by
  induction accesses generalizing p p' with
  | nil => exact ⟨h, rfl⟩
  | cons a rest ih =>
    obtain ⟨hecho, houtcome⟩ :=
      echoes_access h (fun _ _ => .inr (.inr h.hot_eq)) (a.via Noting.new)
    have hback : (a.via Noting.new).via (Noting.covering ω).view = a := by cases a <;> rfl
    rw [hback] at hecho houtcome
    obtain ⟨hrun, houtcomes⟩ := ih hecho
    refine ⟨hrun, ?_⟩
    rw [List.map_cons, outcomes, outcomes, List.map_append, houtcomes, ← houtcome]
    congr 1
    cases p.outcome? (fun _ => true) (a.via Noting.new) <;> rfl

end Host

/-- **A log records the format of the catalogue**, if it records anything. -/
theorem Registry.slots_log_of_catalogue {ω : Type} {r : Registry ω} {logger name : String}
    {f : Format} (hf : r.catalogue logger name = some f) {level : Level}
    (henabled : r.isEnabled logger level = true) (hbusy : r.busy = false)
    (hclosed : r.closed = false) (args : Arguments) :
    (r.log logger level name args).hot.slots
      = r.hot.slots ++ (Message.mk r.clock ⟨r.context, logger⟩ level f args).slots := by
  have hget : (r.loggerAt logger).formats.get? name = some f := hf
  rw [log, if_pos henabled, hget]
  simp only [hbusy, hclosed, Bool.false_eq_true, if_false]
  exact (r.hot.slots_log ⟨r.clock, ⟨r.context, logger⟩, level, f, args⟩).1

namespace Host

variable {ω : Type} [Writer ω]

/-- **Formats are entered once, and stay.** Take any settings, any writer and anything that is
done with a registry. Do it once more with writers that note the calls of their drains and the
replies to them, so that all calls of the run are known, in the order in which they were
answered.

* The notes make no difference: whatever comes out of the run is the same.
* All calls together are a chronicle of the catalogue, from the blank one to the one that the
  registry has at the end. So each call is answered by the catalogue as it was then. A
  registration enters one format under a name that was free, or it is refused and changes
  nothing, and a name that is taken is refused whatever the source is. Of several templates
  those are entered that come before the first that is refused.
* What the catalogue has after a call it has ever after.
* After a registration that was not refused its logger has the format that the source compiles
  to, at the end as well.
* The loggers record by the catalogue: a log that is neither kept out by its level nor by the
  state of the registry is recorded in the format that is there under the name. -/
theorem formats_are_entered_once (s : Settings) (w : ω) (accesses : List (Access ω)) :
    let noted := accesses.map (.via Noting.new)
    let calls := (start s (Noting.new w)).history noted
    let r := ((start s w).run accesses).registry
    ((start s (Noting.new w)).outcomes (fun _ => true) noted).map (.via Noting.inner)
      = (start s w).outcomes (fun _ => true) accesses ∧
    Catalogue.Chronicle .blank calls r.catalogue ∧
    (∀ before c reply after, calls = before ++ (c, reply) :: after →
      ∃ F F' : Catalogue, Catalogue.Chronicle .blank before F ∧ F.Answers c reply F' ∧
        Catalogue.Chronicle F' after r.catalogue ∧ r.catalogue.Extends F') ∧
    (∀ logger name source, (.register logger name source, .registered none) ∈ calls →
      ∃ f, source.compile name = .ok f ∧ r.catalogue logger name = some f) ∧
    ∀ logger name f, r.catalogue logger name = some f → ∀ level args,
      r.isEnabled logger level = true → r.busy = false → r.closed = false →
        (r.log logger level name args).hot.slots
          = r.hot.slots ++ (Message.mk r.clock ⟨r.context, logger⟩ level f args).slots := by
  intro noted calls r
  have hstart : (start s (Noting.new w)).registry.Echoes (.exact s.writeLevel)
      (Noting.covering ω).view (start s w).registry := by
    exact .intro (Registry.new s (Noting.new w)) (Buffer.empty, s.clock) #[] rfl rfl
  obtain ⟨hecho, houtcomes⟩ := echoes_noting hstart accesses
  have hsame : ((start s (Noting.new w)).run noted).registry.catalogue = r.catalogue :=
    congrArg Registry.catalogue hecho.quiet_eq
  have hall : Catalogue.Chronicle .blank calls r.catalogue := by
    rw [← hsame, ← Registry.catalogue_new s (Noting.new w)]
    exact chronicle_history (start s (Noting.new w)) noted
  have hsplit : ∀ before c reply after, calls = before ++ (c, reply) :: after →
      ∃ F F' : Catalogue, Catalogue.Chronicle .blank before F ∧ F.Answers c reply F' ∧
        Catalogue.Chronicle F' after r.catalogue ∧ r.catalogue.Extends F' := by
    intro before c reply after hcalls
    rw [hcalls] at hall
    obtain ⟨F, F', hbefore, hcall, hafter⟩ := hall.split
    exact ⟨F, F', hbefore, hcall, hafter, hafter.grows⟩
  refine ⟨houtcomes, hall, hsplit, ?_, ?_⟩
  · intro logger name source hmem
    obtain ⟨before, after, hcalls⟩ := List.append_of_mem hmem
    obtain ⟨F, F', -, hcall, -, hgrows⟩ := hsplit before _ _ after hcalls
    cases hcall with
    | register h =>
      cases h with
      | @entered f hfree hf => exact ⟨f, hf, hgrows logger name f (F.enter_self logger name f)⟩
    | other reply hregisters hasks => contradiction
  · intro logger name f hf level args henabled hbusy hclosed
    exact Registry.slots_log_of_catalogue hf henabled hbusy hclosed args

end Host

end Logbook
