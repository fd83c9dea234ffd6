import Orchestration.Session

/-!
# The engine

Running an activity takes a step and then does what the activity says. A scope opens
a frame, runs its body and settles what the body came to:

* it returned and nothing is pending: the frame is merged;
* it returned while termination is pending: the frame is discarded; the scope's own
  compensation, if there is one, runs first with the request out of the way, and the
  request is put back afterwards;
* it raised a fault: a handler of the frame runs in its place, or else the fault is
  held and raised again once the frame is closed.

What a compensation or a handler comes to is settled in the same way. Each of them
is taken out of its table first, so a run ends. `runWithin` has a budget for the
depth of its calls and has no answer if that is too small.
-/

set_option autoImplicit false

namespace Orchestration

/-- How the body of a scope was settled: whether its frame is merged, and the fault it holds. -/
structure Verdict where
  merge : Bool
  captured : Option Fault
  deriving DecidableEq, Repr

namespace Engine

variable {τ : Type}

/-- A way of running activities; it has no answer where its budget is too small. -/
abbrev Runner (τ : Type) := Activity → Session τ → Option (Answer τ Unit)

def makeFault (s : Session τ) (name : String) (payload : Option Expr) : Fault :=
  ⟨name, (payload.map (Expr.eval s.env)).getD .void⟩

def inSequence (run : Runner τ) : List Activity → Session τ → Option (Answer τ Unit)
  | [], s => some s.done
  | p :: ps, s =>
    if s.killed && p.killable then some s.done
    else match run p s with
      | some (.ok (), s) => inSequence run ps s
      | stopped => stopped

def inParallel (run : Runner τ) : List Activity → Session τ → Option (Answer τ Unit)
  | [], s => some s.done
  | p :: ps, s =>
    if s.killed && p.killable then inParallel run ps s
    else match run p s with
      | some (.ok (), s) => inParallel run ps s
      | stopped => stopped

def installAll (s : Session τ) (handlers : List (Target × Activity)) : Session τ :=
  handlers.foldl (fun s h => s.install h.1 h.2) s

variable [Tracer τ]

def settle (run : Runner τ) (id : String) :
    Nat → Activity → Session τ → Option (Answer τ Verdict)
  | 0, _, _ => none
  | budget + 1, p, s =>
    match run p s with
    | none => none
    | some (.ok (), s) =>
      match s.pending with
      | none => some (.ok ⟨true, none⟩, s)
      | some killer =>
        let s := s.observe (.killObserved id killer.name)
        match s.takeCompensation? id with
        | none => some (.ok ⟨false, none⟩, s)
        | some (compensation, s) =>
          match settle run id budget compensation (s.clearKill.observe (.compensationStart id)) with
          | some (.ok verdict, s) =>
            some (.ok { verdict with merge := false },
              (s.kill killer).observe (.compensationEnd id))
          | stopped => stopped
    | some (.error (.fault f), s) =>
      let scope := s.currentScope
      match s.takeHandler? f.name true with
      | none => some (.ok ⟨true, some f⟩, s.observe (.faultCaptured scope f.name))
      | some (handler, s) =>
        match s.deliver f with
        | (.ok (), s) => settle run id budget handler (s.observe (.faultDispatch scope f.name))
        | (.error stop, s) => some (s.fail stop)
    | some (.error (.abort a), s) => some (s.fail (.abort a))

/-- Raises the fault that a closed scope has held, unless the scope saw a kill. -/
def resolve (id : String) (v : Verdict) (s : Session τ) : Answer τ Unit :=
  match v.captured with
  | some f => if v.merge then (s.observe (.faultRaised id f.name)).fail (.fault f) else s.done
  | none => s.done

def leave (id : String) (autoPop : Bool) (v : Verdict) (s : Session τ) : Answer τ Unit :=
  if autoPop then Session.andThen (s.popScope v.merge) (resolve id v) else resolve id v s

def execute (run : Runner τ) (budget : Nat) (id : String) (body : Activity) (autoPop : Bool)
    (s : Session τ) : Option (Answer τ Unit) :=
  match s.pushScope id with
  | (.error stop, s) => some (s.fail stop)
  | (.ok (), s) =>
    match settle run id budget body s with
    | none => none
    | some (.error stop, s) => some (s.fail stop)
    | some (.ok v, s) => some (leave id autoPop v s)

def perform (run : Runner τ) (budget : Nat) : Activity → Session τ → Option (Answer τ Unit)
  | .nil, s => some s.done
  | .sequence ps, s => inSequence run ps s
  | .parallel ps, s => inParallel run ps s
  | .assign path value, s => some (s.write path (value.eval s.env))
  | .print parts, s => some (s.printLine (parts.map fun e => (e.eval s.env).text))
  | .throw name payload, s => some (s.fail (.fault (makeFault s name payload)))
  | .kill name payload, s => some (s.kill (makeFault s name payload)).done
  | .install handlers, s => some (installAll s handlers).done
  | .compensate scope, s =>
    match s.takeVisible? scope with
    | some (compensation, s) => run compensation s
    | none => some s.done
  | .scope id body autoPop, s => execute run budget id body autoPop s
  | .exit, s => some (s.fail (.abort .exit))

def runWithin : Nat → Runner τ
  | 0, _, _ => none
  | budget + 1, p, s =>
    match s.step with
    | (.error stop, s) => some (s.fail stop)
    | (.ok (), s) => perform (runWithin budget) budget p s

end Engine

end Orchestration
