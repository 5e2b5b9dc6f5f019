/-! Activities on a shared state: what happens at once, and where others may come between. -/

namespace TokenQuota

/-- What is left to do of an activity that several others may come between. -/
inductive Task (σ : Type) (α : Type)
  /-- Nothing is left to do. -/
  | done (result : α)
  /-- Waits until the state is ready, and then changes it at once. What follows may depend on
  the state before the change. -/
  | step (ready : σ → Bool) (change : σ → σ) (next : σ → Task σ α)
  /-- Lets time pass. -/
  | sleep (millis : Nat) (next : Task σ α)

/-- A part of a state that can be read and replaced. -/
structure Part (σ τ : Type) where
  get : σ → τ
  set : τ → σ → σ

def Part.comp {σ τ ρ : Type} (outer : Part σ τ) (inner : Part τ ρ) : Part σ ρ where
  get s := inner.get (outer.get s)
  set r s := outer.set (inner.set r (outer.get s)) s

namespace Task

variable {σ τ : Type} {α β : Type}

def andThen : Task σ α → (α → Task σ β) → Task σ β
  | done a, f => f a
  | step ready change next, f => step ready change fun s => (next s).andThen f
  | sleep millis next, f => sleep millis (next.andThen f)

instance : Monad (Task σ) where
  pure := done
  bind := andThen

@[simp] theorem done_andThen (a : α) (f : α → Task σ β) : (done a).andThen f = f a := rfl

@[simp] theorem andThen_done (t : Task σ α) : t.andThen done = t := by
  induction t with
  | done a => rfl
  | step ready change next ih => simp [andThen, ih]
  | sleep millis next ih => simp [andThen, ih]

theorem andThen_assoc {γ : Type} (t : Task σ α) (f : α → Task σ β) (g : β → Task σ γ) :
    (t.andThen f).andThen g = t.andThen fun a => (f a).andThen g := by
  induction t with
  | done a => rfl
  | step ready change next ih => simp [andThen, ih]
  | sleep millis next ih => simp [andThen, ih]

/-- Reads and changes the state at once. -/
def atOnce (f : σ → α × σ) : Task σ α :=
  step (fun _ => true) (fun s => (f s).2) fun s => done (f s).1

def read (f : σ → α) : Task σ α :=
  step (fun _ => true) id fun s => done (f s)

def modify (f : σ → σ) : Task σ Unit :=
  step (fun _ => true) f fun _ => done ()

/-- Waits until the state is ready, and changes it at once. -/
def await (ready : σ → Bool) (change : σ → σ) : Task σ Unit :=
  step ready change fun _ => done ()

/-- Lets time pass, unless it is none. -/
def pause (millis : Nat) : Task σ Unit :=
  if millis = 0 then done () else sleep millis (done ())

def onPart (p : Part σ τ) : Task τ α → Task σ α
  | done a => done a
  | step ready change next =>
    step (fun s => ready (p.get s)) (fun s => p.set (change (p.get s)) s)
      fun s => (next (p.get s)).onPart p
  | sleep millis next => sleep millis (next.onPart p)

def holding (lock : Part σ Bool) (t : Task σ α) : Task σ α := do
  await (fun s => !lock.get s) (lock.set true)
  let a ← t
  modify (lock.set false)
  return a

/-- Runs an activity alone to its end. There is no result if it waits for a state that nobody
else makes ready. -/
def run (elapse : Nat → σ → σ) : Task σ α → σ → Option α × σ
  | done a, s => (some a, s)
  | step ready change next, s => if ready s then (next s).run elapse (change s) else (none, s)
  | sleep millis next, s => next.run elapse (elapse millis s)

/-- Runs an activity alone for some time: what is left of it, and the state. -/
def runFor (elapse : Nat → σ → σ) : Task σ α → Nat → σ → Task σ α × σ
  | done a, millis, s => (done a, elapse millis s)
  | step ready change next, millis, s =>
    if ready s then (next s).runFor elapse millis (change s)
    else (step ready change next, elapse millis s)
  | sleep left next, millis, s =>
    if left ≤ millis then next.runFor elapse (millis - left) (elapse left s)
    else (sleep (left - millis) next, elapse millis s)

/-- Runs an activity alone until the state is ready for another. -/
def runUntil (elapse : Nat → σ → σ) (ready : σ → Bool) : Task σ α → σ → Task σ α × σ
  | done a, s => (done a, s)
  | step here change next, s =>
    if ready s then (step here change next, s)
    else if here s then (next s).runUntil elapse ready (change s)
    else (step here change next, s)
  | sleep left next, s =>
    if ready s then (sleep left next, s) else next.runUntil elapse ready (elapse left s)

/-- Runs an activity to its end beside another one that has paused. The other one goes on while
this one sleeps or waits for it. When this one gets what it waited for, the other one still goes
on to its next pause. The result is that of this one, with what is left of the other one. -/
def runBeside (elapse : Nat → σ → σ) : Task σ β → Task σ α → σ → Option β × Task σ α × σ
  | done b, other, s => (some b, other, s)
  | step ready change next, other, s =>
    if ready s then (next s).runBeside elapse other (change s)
    else
      let (other, s) := other.runUntil elapse ready s
      if ready s then
        let (other, after) := other.runFor elapse 0 (change s)
        (next s).runBeside elapse other after
      else (none, other, s)
  | sleep millis next, other, s =>
    let (other, s) := other.runFor elapse millis s
    next.runBeside elapse other s

end Task

/-- An activity that may fail. -/
abbrev Action (ε : Type) (σ : Type) := ExceptT ε (Task σ)

namespace Action

variable {ε σ τ α : Type}

def ofTask (t : Task σ α) : Action ε σ α := ExceptT.lift t

def outcome (a : Action ε σ α) : Action ε σ (Except ε α) :=
  ExceptT.lift (ExceptT.run a)

def read (f : σ → α) : Action ε σ α := ofTask (Task.read f)

def modify (f : σ → σ) : Action ε σ Unit := ofTask (Task.modify f)

/-- Reads and changes the state at once, or fails. -/
def atOnce (f : σ → Except ε α × σ) : Action ε σ α := ExceptT.mk (Task.atOnce f)

/-- The result, unless it is a failure. -/
def ofExcept : Except ε α → Action ε σ α
  | .ok a => pure a
  | .error e => throw e

/-- Lets time pass, unless it is none. -/
def pause (millis : Nat) : Action ε σ Unit := ofTask (Task.pause millis)

/-- Holds a lock during an action, whether it fails or not. -/
def holding (lock : Part σ Bool) (a : Action ε σ α) : Action ε σ α :=
  ExceptT.mk (Task.holding lock (ExceptT.run a))

def onPart (p : Part σ τ) (a : Action ε τ α) : Action ε σ α :=
  ExceptT.mk (Task.onPart p (ExceptT.run a))

end Action

end TokenQuota
