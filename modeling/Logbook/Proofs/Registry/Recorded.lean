/-
Writers with a record.

What a registry has written cannot in general be read off its writer, which may have given its
text away. A recorded writer keeps note of it next to the writer itself: of the text before its
last drain, and of the text since. So it hands over what it holds when it is drained, whatever the
writer inside does.

Nobody sees the record. The drains with it do what the drains without it do, so a registry in
service whose writers are recorded echoes the registry with the writers alone, and what is said
of the first is true of the second.
-/
import Logbook.Proofs.Registry.Echoes
import Logbook.Proofs.Registry.Service

set_option autoImplicit false

namespace Logbook

/-- **A writer with a record of the text it was given**, before its last drain and since. -/
structure Recorded (ω : Type) where
  inner : ω
  held : String
  handed : String

namespace Recorded

variable {ω : Type}

/-- A writer whose record begins. -/
def of (w : ω) : Recorded ω := ⟨w, "", ""⟩

/-- The writer after a drain: the record has moved on. -/
def drained (w : Recorded ω) (p : ω × Signal) : Recorded ω × Signal :=
  (⟨p.1, "", w.handed ++ w.held⟩, p.2)

variable [Writer ω]

instance : Writer (Recorded ω) where
  emit w text := { w with inner := Writer.emit w.inner text, held := w.held ++ text }
  wantsDrain w := Writer.wantsDrain w.inner
  drain w := (Writer.drain w.inner).bind fun p => .done (w.drained p)

/-- The record is a ledger, whatever the writer does. -/
def ledger : Ledger (Recorded ω) where
  held := held
  handed := handed
  held_emit _ _ := rfl
  handed_emit _ _ := rfl
  drain _ := Reentry.always_bind fun _ => ⟨rfl, rfl⟩

def fresh (w : ω) : (ledger : Ledger (Recorded ω)).Fresh := ⟨of w, rfl, rfl⟩

/-- **A record is not seen**: the writer inside does what it does without. -/
def covering (ω : Type) [Writer ω] : Covering (Recorded ω) ω where
  view := inner
  emit _ _ := rfl
  wantsDrain _ := rfl
  drain w := (Reentry.Covers.refl (Writer.drain w.inner)).bind_done fun _ => rfl

end Recorded

/-- A registry without the record of its writer, and with nothing to report. -/
def Registry.plain {ω : Type} (r : Registry (Recorded ω)) : Registry ω :=
  (r.withWriter r.writer.inner).quiet

/-! ## Recorded writers in service -/

namespace Service

variable {ω : Type} [Writer ω]

/-- What is done with a registry, with the writers without their records. -/
def unrecorded (ops : List (Operation (Recorded.ledger : Ledger (Recorded ω)))) :
    List (Access ω) :=
  ops.map (.via fun w => w.val.inner)

/-- **A registry whose writers are recorded** echoes one that the same is done with, without the
records. -/
theorem echoes_unrecorded (s : Settings) (w : ω)
    (ops : List (Operation (Recorded.ledger : Ledger (Recorded ω)))) :
    ((start s (Recorded.fresh w)).run ops).registry.Echoes (.exact s.writeLevel)
      (Recorded.covering ω).view ((Registry.new s w).accessAll (unrecorded ops)) := by
  have hstart : (Registry.new s (Recorded.of w)).Echoes (.exact s.writeLevel)
      (Recorded.covering ω).view (Registry.new s w) :=
    .intro (Registry.new s (Recorded.of w)) (.empty, s.clock) #[] rfl rfl
  have hseen : (ops.map (.via fun w => w.val)).map (.via (Recorded.covering ω).view)
      = unrecorded ops := by
    rw [List.map_map]
    exact List.map_congr_left fun op _ => op.via_via _ _
  rw [registry_run, ← hseen]
  exact hstart.accessAll _

end Service

end Logbook
