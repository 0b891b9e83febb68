/-
A walk through a buffer, taken up again after the buffer has grown.

A walk looks for the slot at its cursor, steps over it, and looks for the next one. Where there
is none it stays, and it can look again later. Between two looks anything may be added to the
buffer. What the looks come to is then what a queue would give: what waits is the content of the
buffer, an addition goes to the end of it, and a look takes what is at its head (`looks`).

One state carries this (`Buffer.Meets`): the cursor rests in a block and has still to meet what
waits. An addition puts its slots behind the others that wait, and a look takes the first of
them away. A whole walk goes from one such state to another, so each slot is met once, wherever
the blocks begin and end and at whichever of the looks they came in between.
-/
import Mathlib.Data.List.ReduceOption
import Logbook.Proofs.Buffer.Cursor
import Logbook.Proofs.Buffer.Pool
import Logbook.Proofs.Emission.Walk

set_option autoImplicit false

namespace Logbook

/-! ## Operations that add slots -/

namespace Change

/-- An operation leaves the slots that are there, unless it starts over. -/
def grows : Change → Bool
  | .create | .clear => false
  | _ => true

/-- **The slots that an operation adds.** Room that is made is not one of them. -/
def slots : Change → List Slot
  | .append s | .push s => [s]
  | .appendTag t => t.slot?.toList
  | .log m => m.slots
  | .expand h v bounds => h.slots bounds bounds.depth [] v
  | .reserve _ | .create | .clear => []

end Change

/-- What is done to a buffer that is looked at meanwhile. -/
abbrev Addition : Type := { o : Change // o.grows = true }

/-! ## What a cursor has still to meet -/

namespace Buffer

/-- **A cursor has some slots still to meet**, and rests where it will meet those that are added
as well. -/
structure Meets (b : Buffer) (c : Cursor) (waiting : List Slot) : Prop where
  path : b.path = []
  covers : b.Covers c
  after : b.after c = waiting

namespace Meets

variable {b : Buffer} {c : Cursor} {waiting : List Slot}

/-- At the start all slots are to be met. -/
theorem start (hpath : b.path = []) : b.Meets .start b.slots :=
  ⟨hpath, b.covers_start, b.after_start⟩

theorem appendAll (h : b.Meets c waiting) (ss : List Slot) :
    (b.appendAll ss).Meets c (waiting ++ ss) := by
  obtain ⟨hafter, hcovers⟩ := after_appendAll h.covers ss
  refine ⟨?_, hcovers, ?_⟩
  · rw [path_appendAll, h.path]
  · rw [hafter, h.after]

theorem reserve (h : b.Meets c waiting) (n : Nat) :
    ((b.reserve? n).getD b).Meets c waiting := by
  rw [reserve?]
  split
  · refine ⟨?_, covers_withRoom h.covers n, ?_⟩
    · exact (path_withRoom b n).trans h.path
    · exact (after_withRoom b n c).trans h.after
  · exact h

theorem push (h : b.Meets c waiting) (s : Slot) : (b.push s).Meets c (waiting ++ [s]) := by
  obtain ⟨hafter, hcovers⟩ := after_push h.covers s
  refine ⟨h.path, hcovers, ?_⟩
  rw [hafter, h.after]

theorem log (h : b.Meets c waiting) (m : Message) :
    (b.log m.clock m.origin m.level m.format m.args).1.Meets c (waiting ++ m.slots) := by
  obtain ⟨hafter, hcovers⟩ := after_log h.covers h.path m
  refine ⟨path_log h.path m, hcovers, ?_⟩
  rw [hafter, h.after]

/-- **An addition comes behind all that waits.** -/
theorem perform (h : b.Meets c waiting) (o : Addition) :
    (b.perform o.1).Meets c (waiting ++ o.1.slots) := by
  obtain ⟨o, ho⟩ := o
  cases o with
  | create => simp [Change.grows] at ho
  | append s => exact h.appendAll [s]
  | appendTag t =>
    rw [Buffer.perform, appendTag, Change.slots]
    cases t.slot? with
    | none => exact h.appendAll []
    | some s => exact h.appendAll [s]
  | reserve n =>
    rw [Buffer.perform, Change.slots, List.append_nil]
    exact h.reserve n
  | push s => exact h.push s
  | log m => exact h.log m
  | expand heap v bounds =>
    rw [Buffer.perform, expand, appendValue_eq, h.path]
    exact h.appendAll _
  | clear => simp [Change.grows] at ho

/-- **A look finds the first that waits**, and the cursor behind it has the others to meet. -/
theorem find {s : Slot} (h : b.Meets c (s :: waiting)) :
    ∃ at', b.slotFrom c = some (at', s) ∧ b.Meets at'.next waiting := by
  cases hfrom : b.slotFrom c with
  | none =>
    have hnil := (b.slotFrom_eq_none_iff c).mp hfrom
    rw [h.after] at hnil
    exact absurd hnil (List.cons_ne_nil s waiting)
  | some p =>
    obtain ⟨at', s'⟩ := p
    have hcons := after_eq_cons_of_slotFrom hfrom
    rw [h.after, List.cons.injEq] at hcons
    obtain ⟨rfl, hrest⟩ := hcons
    exact ⟨at', rfl, h.path, covers_of_slotFrom hfrom, hrest.symm⟩

/-- Where nothing waits there is nothing to find. -/
theorem find_none (h : b.Meets c []) : b.slotFrom c = none :=
  (b.slotFrom_eq_none_iff c).mpr h.after

theorem found (h : b.Meets c waiting) : (b.slotFrom c).map Prod.snd = waiting.head? := by
  cases waiting with
  | nil => rw [h.find_none, Option.map_none, List.head?_nil]
  | cons s rest =>
    obtain ⟨at', hfrom, -⟩ := h.find
    rw [hfrom, Option.map_some, List.head?_cons]

end Meets

/-- Between two operations a buffer is inside of no node. -/
theorem path_perform {b : Buffer} (hpath : b.path = []) (o : Change) : (b.perform o).path = [] := by
  by_cases ho : o.grows = true
  · exact ((Meets.start hpath).perform ⟨o, ho⟩).path
  -- the operations that start over leave no node to be inside of
  · cases o <;> first | rfl | exact absurd rfl ho

end Buffer

/-- **Whatever is done to some buffers**, none of them is left inside of a node. -/
theorem Pool.path_commands {p : Pool} (h : ∀ name, (p name).path = []) (cs : List Command)
    (name : String) : (cs.foldl Pool.command p name).path = [] := by
  induction cs generalizing p with
  | nil => exact h name
  | cons c cs ih =>
    have hput : ∀ {q : Pool} {b : Buffer} {target : String}, (∀ other, (q other).path = []) →
        b.path = [] → ∀ other, (putAt q target b other).path = [] := by
      intro q b target hq hb other
      unfold putAt
      split
      · exact hb
      · exact hq other
    apply ih
    cases c with
    | on target o => exact hput h (Buffer.path_perform (h target) o)
    | copy source target threshold =>
      apply hput h
      rw [Buffer.copyRetained, Buffer.path_appendAll, h target]
    | move source target threshold =>
      apply hput (hput h rfl)
      rw [Buffer.moveRetained, Buffer.copyRetained, Buffer.path_appendAll, h target]

/-! ## A walk -/

/-- What can happen while a walk is on its way. -/
inductive Walk.Move where
  /-- The slot at the cursor is looked for and stepped over. -/
  | look
  | add (o : Addition)

/-- A walk through a buffer, with what every look has come to. -/
structure Walk where
  buffer : Buffer
  cursor : Cursor
  found : List (Option Slot)

namespace Walk

def start (b : Buffer) : Walk := ⟨b, .start, []⟩

/-- Where there is no slot the cursor stays as it is. -/
def look (w : Walk) : Walk :=
  match w.buffer.slotFrom w.cursor with
  | some (at', s) => { w with cursor := at'.next, found := w.found ++ [some s] }
  | none => { w with found := w.found ++ [none] }

def move (w : Walk) : Move → Walk
  | .look => w.look
  | .add o => { w with buffer := w.buffer.perform o.1 }

def run (w : Walk) (moves : List Move) : Walk := moves.foldl move w

/-- The slots that were stepped over. -/
def visited (w : Walk) : List Slot := w.found.reduceOption

/-- **What looks come to**, if what is added waits behind the others and each look takes the
first that waits. -/
def looks : (waiting : List Slot) → List Move → List (Option Slot)
  | _, [] => []
  | waiting, .look :: moves => waiting.head? :: looks waiting.tail moves
  | waiting, .add o :: moves => looks (waiting ++ o.1.slots) moves

/-- The slots that are added in the course of some moves. -/
def added : List Move → List Slot
  | [] => []
  | .look :: moves => added moves
  | .add o :: moves => o.1.slots ++ added moves

/-- Looks alone take all that waits, and nothing after that. -/
theorem looks_replicate (waiting : List Slot) (k : Nat) :
    looks waiting (List.replicate (waiting.length + k) .look)
      = waiting.map some ++ List.replicate k none := by
  induction waiting with
  | nil =>
    rw [List.length_nil, Nat.zero_add, List.map_nil, List.nil_append]
    induction k with
    | zero => rfl
    | succ k ih =>
      rw [List.replicate_succ, List.replicate_succ, looks, List.tail_nil, ih, List.head?_nil]
  | cons s waiting ih =>
    have hlength : (s :: waiting).length + k = (waiting.length + k) + 1 := by
      rw [List.length_cons]
      omega
    rw [hlength, List.replicate_succ, looks, List.tail_cons, ih, List.head?_cons, List.map_cons,
      List.cons_append]

/-- **Of every slot of the buffer it is settled whether it was visited or still waits.** -/
structure Leaves (w : Walk) (waiting : List Slot) : Prop where
  meets : w.buffer.Meets w.cursor waiting
  slots : w.visited ++ waiting = w.buffer.slots

namespace Leaves

variable {w : Walk} {waiting : List Slot}

theorem start {b : Buffer} (hpath : b.path = []) : (Walk.start b).Leaves b.slots :=
  ⟨.start hpath, rfl⟩

/-- **A look** visits the first slot that waits. -/
theorem look (h : w.Leaves waiting) :
    w.look.Leaves waiting.tail ∧ w.look.found = w.found ++ [waiting.head?] ∧
      w.look.buffer = w.buffer := by
  cases waiting with
  | nil =>
    rw [Walk.look, h.meets.find_none]
    refine ⟨⟨h.meets, ?_⟩, rfl, rfl⟩
    rw [← h.slots, visited, List.reduceOption_append]
    exact List.append_nil _
  | cons s rest =>
    obtain ⟨at', hfrom, hmeets⟩ := h.meets.find
    rw [Walk.look, hfrom]
    refine ⟨⟨hmeets, ?_⟩, rfl, rfl⟩
    rw [← h.slots, visited, List.reduceOption_append, List.append_assoc]
    rfl

/-- An addition visits nothing, and its slots wait behind the others. -/
theorem add (h : w.Leaves waiting) (o : Addition) :
    (w.move (.add o)).Leaves (waiting ++ o.1.slots) ∧
      (w.move (.add o)).buffer.slots = w.buffer.slots ++ o.1.slots := by
  -- all slots are those that a cursor at the start has to meet, so growth is seen from there
  have hslots : (w.buffer.perform o.1).slots = w.buffer.slots ++ o.1.slots := by
    rw [← Buffer.after_start]
    exact ((Buffer.Meets.start h.meets.path).perform o).after
  refine ⟨⟨h.meets.perform o, ?_⟩, hslots⟩
  show w.visited ++ (waiting ++ o.1.slots) = (w.buffer.perform o.1).slots
  rw [hslots, ← h.slots, List.append_assoc]

/-- **Whatever the moves are**, the looks come to what waited, and what is added is behind all
that was there. -/
theorem run (h : w.Leaves waiting) (moves : List Move) :
    (w.run moves).found = w.found ++ looks waiting moves ∧
      (w.run moves).buffer.slots = w.buffer.slots ++ added moves ∧
      ∃ left, (w.run moves).Leaves left := by
  induction moves generalizing w waiting with
  | nil => exact ⟨(List.append_nil _).symm, (List.append_nil _).symm, waiting, h⟩
  | cons m moves ih =>
    cases m with
    | look =>
      obtain ⟨hleaves, hlook, hbuffer⟩ := h.look
      obtain ⟨hfound, hslots, hleft⟩ := ih hleaves
      refine ⟨?_, ?_, hleft⟩
      · rw [looks, List.append_cons, ← hlook]
        exact hfound
      · rw [added, ← hbuffer]
        exact hslots
    | add o =>
      obtain ⟨hleaves, hgrown⟩ := h.add o
      obtain ⟨hfound, hslots, hleft⟩ := ih hleaves
      refine ⟨?_, ?_, hleft⟩
      · rw [looks]
        exact hfound
      · rw [added, ← List.append_assoc, ← hgrown]
        exact hslots

/-- As many looks as there are slots left find all of them, and further ones find nothing. -/
theorem finish (h : w.Leaves waiting) (k : Nat) :
    (w.run (List.replicate (waiting.length + k) .look)).found
      = w.found ++ waiting.map some ++ List.replicate k none := by
  obtain ⟨hfound, -⟩ := h.run (List.replicate (waiting.length + k) .look)
  rw [hfound, looks_replicate, List.append_assoc]

end Leaves

/-- **Each slot of a buffer is visited once, also while the buffer grows.** Take a buffer after
any commands to any buffers, and a walk through it from the start, with any additions between
its looks.

* Without additions the looks find the slots of the buffer in their order, and then none.
* With additions they find what a queue would give, to which each addition is put at the end
  when it is made. A look that finds none is not the last one.
* The buffer has the slots that it had, and those that were added behind them. They are the ones
  that were visited, and behind these the ones that were not.
* Wherever the walk has come to, it goes on to find those, each once and in order, and then
  none; and if more is added meanwhile, it goes on as the queue does. -/
theorem visits_each_slot_once (commands : List Command) (name : String) (moves : List Move) :
    let b := commands.foldl Pool.command .fresh name
    let w := (Walk.start b).run moves
    (∀ k, ((Walk.start b).run (List.replicate (b.slots.length + k) .look)).found
      = b.slots.map some ++ List.replicate k none) ∧
    w.found = looks b.slots moves ∧
    w.buffer.slots = b.slots ++ added moves ∧
    ∃ left, w.visited ++ left = w.buffer.slots ∧
      (w.buffer.slotFrom w.cursor).map Prod.snd = left.head? ∧
      (∀ k, (w.run (List.replicate (left.length + k) .look)).found
        = w.found ++ left.map some ++ List.replicate k none) ∧
      ∀ further, (w.run further).found = w.found ++ looks left further := by
  intro b w
  have hpath : b.path = [] := Pool.path_commands (fun _ => rfl) commands name
  have hstart : (Walk.start b).Leaves b.slots := .start hpath
  obtain ⟨hfound, hslots, left, hleft⟩ := hstart.run moves
  exact ⟨hstart.finish, hfound, hslots, left, hleft.slots, hleft.meets.found, hleft.finish,
    fun further => (hleft.run further).1⟩

end Walk

end Logbook
