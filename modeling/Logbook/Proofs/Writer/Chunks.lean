/-
What the default writer hands to its flusher.

The emitter asks for a drain only when a message is complete, and the default writer wants one as
soon as it holds enough bytes. So the text of a run is cut behind messages: a chunk ends with the
message that fills the threshold, and what is left at the end of the run is the last chunk. That is
the greedy segmentation of the messages, and it is stated here without a look at the writer:
`Segments` says which cuts it makes, and there is only one way to make them.

`walk_front` is the run up to some message. The writer then holds the messages since the last cut,
whatever the flusher made of the chunks before.
-/
import Logbook.Proofs.Emission.Session
import Logbook.Writer.Buffered
import Mathlib.Data.List.Induction

set_option autoImplicit false

namespace Logbook

/-! ## A flusher that is given chunks -/

namespace Flusher

variable {φ : Type} [Flusher φ]

/-- What becomes of each chunk, one after the other: none, or why it failed. -/
def outcomes : φ → List String → List (String × Option String)
  | _, [] => []
  | f, chunk :: chunks => (chunk, (flush f chunk).2) :: outcomes (flush f chunk).1 chunks

/-- The flusher after some chunks. A chunk that failed does not keep it from the next one. -/
def after (f : φ) (chunks : List String) : φ := chunks.foldl (fun f chunk => (flush f chunk).1) f

/-- The chunks that did not fail. -/
def taken (f : φ) (chunks : List String) : List String :=
  ((outcomes f chunks).filter (·.2.isNone)).map Prod.fst

def failures (f : φ) (chunks : List String) : List Diagnostic :=
  ((outcomes f chunks).filterMap Prod.snd).map .flushFailed

theorem outcomes_append (f : φ) (cs ds : List String) :
    outcomes f (cs ++ ds) = outcomes f cs ++ outcomes (after f cs) ds := by
  induction cs generalizing f with
  | nil => rfl
  | cons c cs ih => rw [List.cons_append, outcomes, outcomes, ih]; rfl

theorem after_append (f : φ) (cs ds : List String) :
    after f (cs ++ ds) = after (after f cs) ds := List.foldl_append

theorem failures_append (f : φ) (cs ds : List String) :
    failures f (cs ++ ds) = failures f cs ++ failures (after f cs) ds := by
  rw [failures, outcomes_append, List.filterMap_append, List.map_append]
  rfl

/-- **A flusher that keeps what it takes loses the chunks that fail**, and no other text. -/
theorem contents_after {contents : φ → String}
    (hcontents : ∀ f chunk, contents (flush f chunk).1
      = if (flush f chunk).2.isNone then contents f ++ chunk else contents f)
    (f : φ) (chunks : List String) :
    contents (after f chunks) = contents f ++ String.join (taken f chunks) := by
  induction chunks generalizing f with
  | nil => simp [after, taken, outcomes]
  | cons chunk chunks ih =>
    have hstep : contents (after f (chunk :: chunks)) = contents (flush f chunk).1
        ++ String.join (taken (flush f chunk).1 chunks) := ih _
    rw [hstep, hcontents]
    by_cases hfails : (flush f chunk).2.isNone = true
    · simp [taken, outcomes, hfails, String.join_cons, String.append_assoc]
    · simp [taken, outcomes, hfails]

end Flusher

/-! ## The greedy segmentation -/

/-- The number of bytes that some messages are printed with. -/
def Message.bytes (style : Style) (ms : List Message) : Nat :=
  (Message.printAll style ms).utf8ByteSize

variable {style : Style} {threshold : Nat} {ms front rest : List Message}
  {portions : List (List Message)} {m : Message}

/-- Messages of which no first ones reach the threshold. -/
def Below (style : Style) (threshold : Nat) (ms : List Message) : Prop :=
  ∀ front, front <+: ms → front ≠ [] → Message.bytes style front < threshold

/-- **Messages that reach the threshold with the last of them**, and not before. -/
structure Fills (style : Style) (threshold : Nat) (ms : List Message) : Prop where
  ne_nil : ms ≠ []
  below : Below style threshold ms.dropLast
  reached : threshold ≤ Message.bytes style ms

/-- **The greedy segmentation of some messages**: portions that each fill the threshold, and a rest
that does not reach it. -/
structure Segments (style : Style) (threshold : Nat) (ms : List Message)
    (portions : List (List Message)) (rest : List Message) : Prop where
  messages : ms = portions.flatten ++ rest
  fills : ∀ p ∈ portions, Fills style threshold p
  below : Below style threshold rest

theorem below_nil : Below style threshold [] :=
  fun _ hprefix hne => absurd (List.prefix_nil.mp hprefix) hne

theorem Below.append_singleton (h : Below style threshold ms)
    (hlast : Message.bytes style (ms ++ [m]) < threshold) : Below style threshold (ms ++ [m]) := by
  intro front hprefix hne
  rcases List.prefix_concat_iff.mp hprefix with rfl | hprefix
  · exact hlast
  · exact h front hprefix hne

/-- Two portions at the same place end at the same message. -/
theorem Fills.eq_of_append_eq {p p' qs qs' : List Message} (h : Fills style threshold p)
    (h' : Fills style threshold p') (heq : p ++ qs = p' ++ qs') : p = p' := by
  -- the shorter one would reach the threshold before the longer one does
  have hshorter : ∀ {p p' : List Message}, Fills style threshold p → Fills style threshold p' →
      p <+: p' → p = p' := by
    intro p p' h h' hprefix
    refine Classical.byContradiction fun hne => ?_
    have hlast := List.dropLast_concat_getLast h'.ne_nil
    rw [← hlast] at hprefix hne
    rcases List.prefix_concat_iff.mp hprefix with heq | hprefix
    · exact hne heq
    · exact absurd (h'.below p hprefix h.ne_nil) (Nat.not_lt.mpr h.reached)
  rcases List.prefix_or_prefix_of_prefix (List.prefix_append p qs)
    (heq ▸ List.prefix_append p' qs') with hprefix | hprefix
  · exact hshorter h h' hprefix
  · exact (hshorter h' h hprefix).symm

/-- A rest has no portion in it. -/
theorem Fills.not_below {p qs : List Message} (h : Fills style threshold p) :
    ¬ Below style threshold (p ++ qs) := fun hbelow =>
  absurd (hbelow p (List.prefix_append p qs) h.ne_nil) (Nat.not_lt.mpr h.reached)

/-- **There is only one greedy segmentation.** -/
theorem Segments.unique {portions' : List (List Message)} {rest' : List Message}
    (h : Segments style threshold ms portions rest)
    (h' : Segments style threshold ms portions' rest') : portions = portions' ∧ rest = rest' := by
  induction portions generalizing ms portions' with
  | nil =>
    cases portions' with
    | nil => exact ⟨rfl, h.messages.symm.trans h'.messages⟩
    | cons p portions' =>
      have hrest : rest = p ++ (portions'.flatten ++ rest') := by
        simpa using h.messages.symm.trans h'.messages
      exact absurd (hrest ▸ h.below) (h'.fills p List.mem_cons_self).not_below
  | cons p portions ih =>
    cases portions' with
    | nil =>
      have hrest : rest' = p ++ (portions.flatten ++ rest) := by
        simpa using h'.messages.symm.trans h.messages
      exact absurd (hrest ▸ h'.below) (h.fills p List.mem_cons_self).not_below
    | cons p' portions' =>
      -- the first portions are the same, and what is left is segmented by the others
      have hall : p ++ (portions.flatten ++ rest) = p' ++ (portions'.flatten ++ rest') := by
        simpa using h.messages.symm.trans h'.messages
      have hfirst := (h.fills p List.mem_cons_self).eq_of_append_eq
        (h'.fills p' List.mem_cons_self) hall
      subst hfirst
      have hothers : Segments style threshold (portions.flatten ++ rest) portions rest :=
        ⟨rfl, fun q hq => h.fills q (List.mem_cons_of_mem p hq), h.below⟩
      have hothers' : Segments style threshold (portions.flatten ++ rest) portions' rest' :=
        ⟨List.append_cancel_left hall, fun q hq => h'.fills q (List.mem_cons_of_mem p hq), h'.below⟩
      obtain ⟨rfl, rfl⟩ := ih hothers hothers'
      exact ⟨rfl, rfl⟩

/-- One message more, which ends a portion or not. -/
theorem Segments.append_singleton (h : Segments style threshold ms portions rest) (m : Message) :
    if threshold ≤ Message.bytes style (rest ++ [m]) then
      Segments style threshold (ms ++ [m]) (portions ++ [rest ++ [m]]) []
    else
      Segments style threshold (ms ++ [m]) portions (rest ++ [m]) := by
  split
  · rename_i hreached
    refine ⟨by simp [h.messages], List.forall_mem_append.mpr ⟨h.fills, ?_⟩, below_nil⟩
    refine List.forall_mem_singleton.mpr ⟨by simp, ?_, hreached⟩
    rw [List.dropLast_concat]
    exact h.below
  · rename_i hreached
    exact ⟨by simp [h.messages], h.fills, h.below.append_singleton (Nat.not_le.mp hreached)⟩

/-- **The texts of some portions**, without those that are empty. -/
def chunks (style : Style) (portions : List (List Message)) : List String :=
  (portions.map (Message.printAll style)).filter (!·.isEmpty)

theorem chunks_append (style : Style) (ps qs : List (List Message)) :
    chunks style (ps ++ qs) = chunks style ps ++ chunks style qs := by
  rw [chunks, List.map_append, List.filter_append]
  rfl

theorem join_chunks (style : Style) (portions : List (List Message)) :
    String.join (chunks style portions) = Message.printAll style portions.flatten := by
  induction portions with
  | nil => rfl
  | cons p portions ih =>
    rw [← List.singleton_append, chunks_append, String.join_append, ih, List.singleton_append,
      List.flatten_cons, Message.printAll_append]
    congr 1
    by_cases hempty : (Message.printAll style p).isEmpty = true
    · simp [chunks, String.isEmpty_iff.mp hempty]
    · simp [chunks, hempty]

/-! ## A writer by itself -/

/-- **The surroundings of a writer that belongs to no registry**: what is reported is kept, and no
call is answered. -/
def Writer.sink {ω : Type} [Writer ω] : Sink (ω × List Diagnostic) where
  emit s text := (Writer.emit s.1 text, s.2)
  report s d := (s.1, s.2 ++ [d])
  wantsDrain s := Writer.wantsDrain s.1
  drain s :=
    let r := (Writer.drain s.1).run (fun ds d => ds ++ [d]) (fun ds _ => (ds, .none)) s.2
    ((r.2.1, r.1), r.2.2)

namespace Buffered

variable {φ : Type} [Flusher φ] {b : Buffer} {e : Emitter}

theorem foldl_emit (w : Buffered φ) (ds : List Diagnostic) (texts : List String) :
    texts.foldl Writer.sink.emit (w, ds)
      = ({ w with held := w.held ++ String.join texts }, ds) := by
  induction texts generalizing w with
  | nil => simp
  | cons text texts ih =>
    rw [List.foldl_cons, String.join_cons, ← String.append_assoc]
    exact ih { w with held := w.held ++ text }

/-- The writer and the reports after the chunks of some portions, with some messages held. -/
def having (style : Style) (threshold : Nat) (flusher : φ) (portions : List (List Message))
    (rest : List Message) : Buffered φ × List Diagnostic :=
  (⟨Message.printAll style rest, threshold, Flusher.after flusher (chunks style portions)⟩,
    Flusher.failures flusher (chunks style portions))

/-- **A drain hands over what is held**, if there is anything, and is complete whether or not the
flush fails. -/
theorem drain_held (held : String) (threshold : Nat) (flusher : φ) (ds : List Diagnostic) :
    let chunk := [held].filter (!·.isEmpty)
    Writer.sink.drain ((⟨held, threshold, flusher⟩ : Buffered φ), ds)
      = ((⟨"", threshold, Flusher.after flusher chunk⟩, ds ++ Flusher.failures flusher chunk),
          .completed) := by
  intro chunk
  have hdrain : Writer.drain (⟨held, threshold, flusher⟩ : Buffered φ)
      = Buffered.drain ⟨held, threshold, flusher⟩ := rfl
  simp only [Writer.sink, hdrain, Buffered.drain]
  by_cases hempty : held.isEmpty = true
  · have hchunk : chunk = [] := by simp [chunk, hempty]
    have hheld : held = "" := String.isEmpty_iff.mp hempty
    rw [if_pos hempty, hchunk, hheld]
    simp [Reentry.run, Flusher.after, Flusher.failures, Flusher.outcomes]
  · have hchunk : chunk = [held] := by simp [chunk, hempty]
    rw [if_neg hempty, hchunk]
    rcases hflush : Flusher.flush flusher held with ⟨f, _ | error⟩ <;>
      simp [hflush, Reentry.run, Flusher.after, Flusher.failures, Flusher.outcomes]

/-- A drain makes a portion of the messages that are held. -/
theorem drain_having (style : Style) (threshold : Nat) (flusher : φ)
    (portions : List (List Message)) (rest : List Message) :
    Writer.sink.drain (having style threshold flusher portions rest)
      = (having style threshold flusher (portions ++ [rest]) [], .completed) := by
  have hchunk : chunks style [rest] = [Message.printAll style rest].filter (!·.isEmpty) := rfl
  rw [having, having, drain_held, chunks_append, Flusher.after_append, Flusher.failures_append,
    hchunk]
  rfl

theorem having_append (style : Style) (threshold : Nat) (flusher : φ)
    (portions : List (List Message)) (rest : List Message) (m : Message) (texts : List String)
    (htexts : String.join texts = m.print style) :
    texts.foldl Writer.sink.emit (having style threshold flusher portions rest)
      = having style threshold flusher portions (rest ++ [m]) := by
  rw [having, foldl_emit, htexts, having, Message.printAll_append, Message.printAll_singleton]

/-- An emitter that stands between two messages of a run. -/
def between (style : Style) (callback : Option String) (c : Cursor) : Emitter :=
  { Emitter.new style with cursor := c, callback := callback }

/-- **The run up to some messages.** The writer holds the messages since the last cut, and the
flusher was given the chunks before it. -/
theorem walk_front (hb : b.slots = ms.flatMap Message.slots) (style : Style) (threshold : Nat)
    (flusher : φ) (callback : Option String) {front back : List Message}
    (hms : ms = front ++ back) :
    ∃ portions rest c, Segments style threshold front portions rest ∧
      b.after c = back.flatMap Message.slots ∧
      (between style callback .start).walk Writer.sink b (Buffered.new flusher threshold, [])
        = (between style callback c).walk Writer.sink b
            (having style threshold flusher portions rest) := by
  -- from the right: what the writer holds depends on the messages before, not on those to come
  induction front using List.reverseRecOn generalizing back with
  | nil =>
    refine ⟨[], [], .start, ⟨rfl, by simp, below_nil⟩, ?_, rfl⟩
    rw [Buffer.after_start, hb, hms, List.nil_append]
  | append_singleton front m ih =>
    obtain ⟨portions, rest, c, hsegments, hafter, hwalk⟩ :=
      ih (show ms = front ++ m :: back by rw [hms, List.append_assoc, List.singleton_append])
    obtain ⟨c', hafter', hmessage⟩ : ∃ c', b.after c' = back.flatMap Message.slots ∧
        (between style callback c).walk Writer.sink b (having style threshold flusher portions rest)
          = (between style callback c').afterMessage Writer.sink b
              ((Frame.texts style [] m.slots).foldl Writer.sink.emit
                (having style threshold flusher portions rest)) :=
      Emitter.walk_message rfl hafter _
    have htexts : String.join (Frame.texts style [] m.slots) = m.print style := by
      rw [Frame.join_texts, Frame.steps_message]
    have hnext := hsegments.append_singleton m
    rw [hmessage, having_append _ _ _ _ _ m _ htexts, Emitter.afterMessage, drain_having] at hwalk
    -- the writer asks exactly if the message fills the threshold
    have hwants : Writer.sink.wantsDrain (having style threshold flusher portions (rest ++ [m]))
        = decide (threshold ≤ Message.bytes style (rest ++ [m])) := rfl
    rw [hwants] at hwalk
    by_cases hfull : threshold ≤ Message.bytes style (rest ++ [m])
    · rw [if_pos hfull] at hnext
      rw [if_pos (decide_eq_true hfull)] at hwalk
      exact ⟨_, [], c', hnext, hafter', hwalk⟩
    · rw [if_neg hfull] at hnext
      rw [if_neg (by simpa using hfull)] at hwalk
      exact ⟨portions, _, c', hnext, hafter', hwalk⟩

/-- **The default writer cuts greedily behind messages.** Take a buffer that holds messages, any
style, any threshold, and the default writer, which holds nothing, in front of any flusher.

* There is exactly one greedy segmentation of the messages. The flusher is given its texts, but for
  those that are empty: a chunk for each portion and one for the rest.
* One call does the whole run. It leaves the buffer cleared, the emitter as it was new, the writer
  without text, and a report for each chunk that failed.
* The chunks are all of the text, and what a flusher keeps is all of them but those that failed.
* Before each message the run stands where the messages before it are segmented, and the writer
  holds the rest of these, which is less than the threshold unless that is zero. -/
theorem run_cuts_greedily (hb : b.Holds ms) (style : Style) (threshold : Nat) (flusher : φ)
    (callback : Option String) :
    let run := (between style callback .start).resume Writer.sink b
      (Buffered.new flusher threshold, [])
    ∃ portions rest,
      Segments style threshold ms portions rest ∧
      (∀ portions' rest', Segments style threshold ms portions' rest' →
        portions' = portions ∧ rest' = rest) ∧
      let cs := chunks style (portions ++ [rest])
      run = ⟨.new style, b.clear, (Buffered.new (Flusher.after flusher cs) threshold,
        Flusher.failures flusher cs), .done, callback⟩ ∧
      String.join cs = Message.printAll style ms ∧
      (∀ contents : φ → String,
        (∀ f chunk, contents (Flusher.flush f chunk).1
          = if (Flusher.flush f chunk).2.isNone then contents f ++ chunk else contents f) →
        contents run.state.1.flusher = contents flusher ++ String.join (Flusher.taken flusher cs)) ∧
      ∀ front m back, ms = front ++ m :: back →
        ∃ portions' rest' c, Segments style threshold front portions' rest' ∧
          b.after c = (m :: back).flatMap Message.slots ∧
          run = (between style callback c).walk Writer.sink b
            (having style threshold flusher portions' rest') ∧
          (0 < threshold → Message.bytes style rest' < threshold) := by
  intro run
  have hwhole : ms = ms ++ [] := (List.append_nil ms).symm
  obtain ⟨portions, rest, c, hsegments, hafter, hwalk⟩ :=
    walk_front hb.slots_eq style threshold flusher callback hwhole
  have hrun : run = ⟨.new style, b.clear,
      having style threshold flusher (portions ++ [rest]) [], .done, callback⟩ := by
    have hconclude := Emitter.walk_of_nil (k := Writer.sink) (e := between style callback c) hafter
      (having style threshold flusher portions rest)
    have hframes : (between style callback c).frames.isEmpty = true := rfl
    -- the last drain does not look at the threshold
    rw [Emitter.conclude, if_pos hframes, drain_having] at hconclude
    exact hwalk.trans hconclude
  refine ⟨portions, rest, hsegments, fun _ _ h => h.unique hsegments, hrun, ?_, ?_, ?_⟩
  · rw [join_chunks, hsegments.messages, List.flatten_append, List.flatten_singleton]
  · intro contents hcontents
    rw [hrun]
    exact Flusher.contents_after hcontents flusher _
  · intro front m back hms
    obtain ⟨portions', rest', c', hsegments', hafter', hwalk'⟩ :=
      walk_front hb.slots_eq style threshold flusher callback hms
    refine ⟨portions', rest', c', hsegments', hafter', hwalk', fun hpos => ?_⟩
    by_cases hrest : rest' = []
    · rw [hrest]
      exact hpos
    · exact hsegments'.below rest' (List.prefix_refl rest') hrest

/-- A flusher that fails on its first chunk and keeps every other one. -/
structure LateStarter where
  started : Bool
  contents : String

instance : Flusher LateStarter where
  flush f chunk :=
    if f.started then (⟨true, f.contents ++ chunk⟩, none) else (⟨true, f.contents⟩, some "not yet")

/-- Two messages that each fill the threshold. The first one is lost, and only that. -/
theorem run_cuts_greedily_after_failure :
    let m := Session.greeting
    let b := (Buffer.empty.log m.clock m.origin m.level m.format m.args).1
    let b' := (b.log m.clock m.origin m.level m.format m.args).1
    let run := (between .bare none .start).resume Writer.sink b'
      (Buffered.new (⟨false, ""⟩ : LateStarter) 5, [])
    b'.Holds [m, m] ∧ run.status = .done ∧ run.state.1.held = "" ∧
      run.state.1.flusher.contents = "good morning\n" ∧ run.state.2 = [.flushFailed "not yet"] := by
  intro m b b' run
  have hb : b'.Holds [m, m] := (Buffer.Holds.empty.log m).log m
  have hfills : Fills .bare 5 [m] := ⟨by simp, below_nil, by decide⟩
  have hsegments : Segments .bare 5 [m, m] [[m], [m]] [] :=
    ⟨rfl, by simp [hfills], below_nil⟩
  obtain ⟨portions, rest, -, hunique, hrun, -⟩ :=
    run_cuts_greedily hb .bare 5 (⟨false, ""⟩ : LateStarter) none
  obtain ⟨rfl, rfl⟩ := hunique _ _ hsegments
  have hcs : chunks .bare ([[m], [m]] ++ [[]]) = ["good morning\n", "good morning\n"] := by decide
  rw [hcs] at hrun
  have hstate : run = _ := hrun
  rw [hstate]
  exact ⟨hb, rfl, rfl, rfl, rfl⟩

end Buffered

end Logbook
