import Augment.Diagnostic
import Augment.Element

/-!
# Events

Everything that happens in a round is logged.  A `Traced` value is a value together with the events
on the way to it, oldest first.  As a monad it appends the events of its parts
(`Traced.events_bind`), and its value is computed as if there were no events at all
(`Traced.value_bind`).

Diagnostics are events too: the diagnostics of a computation are those that it logged
(`Traced.diagnostics`).
-/

namespace Augment

/-- How important an event is. -/
inductive Level where
  | trace
  | debug
  | info
  | warn
  | error
deriving DecidableEq, Repr

/-- The name of a level in a log. -/
def Level.text : Level → String
  | trace => "TRACE"
  | debug => "DEBUG"
  | info => "INFO"
  | warn => "WARN"
  | error => "ERROR"

/-- Something that happened. -/
inductive Event where
  /-- A unit was checked out. -/
  | checkedOut (unit : UnitId)
  /-- A unit was released. -/
  | released (unit : UnitId)
  /-- A rewrite was asked for without a strategy. -/
  | unconfigured
  /-- A rewrite was asked for in a unit that is not source code. -/
  | notSource (fileName : String) (origin : Origin)
  /-- All classes of a unit were visited. -/
  | visited (fileName : String) (classes : Nat)
  /-- Getters were appended to a class. -/
  | appendedGetters (count : Nat)
  /-- Setters were appended to a class. -/
  | appendedSetters (count : Nat)
  /-- The constructors without parameters of a class are about to be replaced. -/
  | replacingConstructors (dropped : Nat) (access : AccessLevel)
  /-- A class was rewritten. -/
  | rewrote (decl : String) (generated : Nat)
  /-- A class was left as it was. -/
  | leftUnchanged (outcome : Outcome)
  /-- A unit could not be read when declarations were looked for. -/
  | skippedUnit (unit : UnitId) (error : RewriteError)
  /-- The processors start on a round of this many units. -/
  | roundStarted (units : Nat)
  /-- A processor starts. -/
  | processorStarted (kind : MarkerKind)
  /-- A diagnostic was issued. -/
  | reported (diagnostic : Diagnostic)
deriving Repr

namespace Event

/-- The diagnostic that was issued, if the event is one. -/
def diagnostic? : Event → Option Diagnostic
  | reported diagnostic => some diagnostic
  | _ => none

/-- The level of an event. -/
def level : Event → Level
  | checkedOut _ | released _ => .trace
  | skippedUnit .. => .warn
  | reported ⟨.note, _⟩ => .info
  | reported ⟨.error, _⟩ => .error
  | _ => .debug

/-- The event in words. -/
def message : Event → String
  | checkedOut unit => s!"checked out compilation unit unit={unit.index}"
  | released unit => s!"released compilation unit unit={unit.index}"
  | unconfigured => "no strategy configured, skipping rewrite"
  | notSource fileName origin =>
    "compilation unit is not primary source, skipping rewrite " ++
      s!"file={fileName} origin={origin.text}"
  | visited fileName classes => s!"visited compilation unit file={fileName} classes={classes}"
  | appendedGetters count => s!"appended getters count={count}"
  | appendedSetters count => s!"appended setters count={count}"
  | replacingConstructors dropped access =>
    s!"replacing zero-parameter constructors dropped={dropped} access={access.text}"
  | rewrote decl generated => s!"rewrote class class={decl} generated={generated}"
  | leftUnchanged outcome => s!"class left unchanged outcome={outcome.text}"
  | skippedUnit unit error =>
    s!"skipping unit during discovery unit={unit.index} err={error.message}"
  | roundStarted units => s!"span round units={units}"
  | processorStarted kind => s!"running processor marker={kind.text}"
  | reported diagnostic => diagnostic.message

/-- The event as an entry of a log. -/
def text (event : Event) : String :=
  event.level.text ++ " " ++ event.message

end Event

/-- A value and the events on the way to it. -/
structure Traced (α : Type) where
  value : α
  events : List Event

namespace Traced

variable {α β : Type}

instance : Monad Traced where
  pure value := ⟨value, []⟩
  bind first next :=
    let second := next first.value
    ⟨second.value, first.events ++ second.events⟩

/-- Logs some events. -/
def emit (events : List Event) : Traced Unit := ⟨(), events⟩

/-- Issues a diagnostic. -/
def report (diagnostic : Diagnostic) : Traced Unit := emit [.reported diagnostic]

/-- The diagnostics that were issued, in order. -/
def diagnostics (traced : Traced α) : List Diagnostic :=
  traced.events.filterMap Event.diagnostic?

/-! ### Values and events of compound computations -/

@[simp] theorem value_pure (value : α) : (pure value : Traced α).value = value := rfl

@[simp] theorem events_pure (value : α) : (pure value : Traced α).events = [] := rfl

@[simp] theorem value_bind (first : Traced α) (next : α → Traced β) :
    (first >>= next).value = (next first.value).value := rfl

@[simp] theorem events_bind (first : Traced α) (next : α → Traced β) :
    (first >>= next).events = first.events ++ (next first.value).events := rfl

@[simp] theorem events_emit (events : List Event) : (emit events).events = events := rfl

instance : LawfulMonad Traced := LawfulMonad.mk' Traced
  (by intro α traced; cases traced; simp [Functor.map])
  (by intro α β value next; rfl)
  (by intro α β γ first second third; simp [Bind.bind, List.append_assoc])

@[simp] theorem value_map (f : α → β) (traced : Traced α) :
    (f <$> traced).value = f traced.value := rfl

@[simp] theorem events_map (f : α → β) (traced : Traced α) :
    (f <$> traced).events = traced.events := by
  change traced.events ++ [] = traced.events
  simp

/-- **The value of a fold is the fold of the values.** -/
theorem value_foldlM (step : β → α → Traced β) (start : β) (items : List α) :
    (items.foldlM step start).value =
      items.foldl (fun state item => (step state item).value) start := by
  induction items generalizing start with
  | nil => rfl
  | cons item rest ih => simp [ih]

/-- The values of a list of computations, one after the other. -/
theorem value_mapM (f : α → Traced β) (items : List α) :
    (items.mapM f).value = items.map fun item => (f item).value := by
  induction items with
  | nil => rfl
  | cons item rest ih => simp [List.mapM_cons, ih]

end Traced

end Augment
