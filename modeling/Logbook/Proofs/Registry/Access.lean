/-
What is done with a registry from outside.

A registry is asked for loggers, called through them, given another writer and told that a drain
has come to an end, in any order. There is nothing else that can be done with it, so every state
that it comes to is one of `accessAll`, from a registry that is new.

Whoever follows a registry through these steps keeps something beside it: the writer that was put
in last, or what the writers before it had handed over. Both depend on whether a writer is put in
(`installs`), and neither has a say in what the registry does.
-/
import Logbook.Registry.Flush

set_option autoImplicit false

namespace Logbook

/-- **What is done with a registry** from outside, with writers that are of some kind or given in
some way. -/
inductive Access (κ : Type) where
  /-- A logger is asked for, at a level or at none. -/
  | logger (name : String) (level : Option Level)
  | call (c : Call)
  /-- Another writer, if no run is under way. -/
  | setWriter (w : κ)
  /-- An outstanding drain comes to an end. -/
  | settle (outcome : Signal)

namespace Access

variable {κ κ' κ'' : Type}

/-- Something that is done with a registry, with its writer seen through a function. -/
def via (f : κ → κ') : Access κ → Access κ'
  | .logger name level => .logger name level
  | .call c => .call c
  | .setWriter w => .setWriter (f w)
  | .settle outcome => .settle outcome

theorem via_via (f : κ → κ') (g : κ' → κ'') (a : Access κ) :
    (a.via f).via g = a.via fun w => g (f w) := by
  cases a <;> rfl

end Access

namespace Registry

variable {ω κ κ' : Type}

/-- The writer that is put in, if one is: none while a run is under way. -/
def installs (r : Registry ω) : Access κ → Option κ
  | .setWriter w => if r.emitter.isIdle then some w else none
  | .logger _ _ | .call _ | .settle _ => none

theorem installs_of_idle {r : Registry ω} (hidle : r.emitter.isIdle = true) (w : κ) :
    r.installs (.setWriter w) = some w := if_pos hidle

theorem installs_of_not_idle {r : Registry ω} (hidle : ¬ r.emitter.isIdle = true) (w : κ) :
    r.installs (.setWriter w) = none := if_neg hidle

variable [Writer ω]

/-- **One step from outside.** A writer that is refused leaves the registry as it is. -/
def access (r : Registry ω) : Access ω → Registry ω
  | .logger name level => r.logger name level
  | .call c => (r.call c).1
  | .setWriter w =>
    match r.setWriter w with
    | .ok r' => r'
    | .error _ => r
  | .settle outcome => r.settle outcome

theorem access_of_idle {r : Registry ω} (hidle : r.emitter.isIdle = true) (w : ω) :
    r.access (.setWriter w) = { r with writer := w } := by
  rw [access, setWriter, if_pos hidle]

theorem access_of_not_idle {r : Registry ω} (hidle : ¬ r.emitter.isIdle = true) (w : ω) :
    r.access (.setWriter w) = r := by
  rw [access, setWriter, if_neg hidle]

/-- Steps from outside, one after the other. -/
def accessAll (r : Registry ω) (accesses : List (Access ω)) : Registry ω :=
  accesses.foldl access r

end Registry

end Logbook
