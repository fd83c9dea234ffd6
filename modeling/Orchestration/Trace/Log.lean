import Orchestration.Trace

/-!
# Trace logs

A log writes one line for each event. After its last permitted line it says that
it stops and is silent from then on; a log that permits no line says nothing.
-/

set_option autoImplicit false

namespace Orchestration

structure Log where
  limit : Option Nat
  lines : Nat
  text : String
  deriving Inhabited

namespace Log

def empty (limit : Option Nat) : Log := ⟨limit, 0, ""⟩

def column (scope : String) : String := scope.pushn ' ' (14 - scope.length)

def describe : Event → String
  | .scopePush scope depth => "  >>> PUSH  " ++ column scope ++ s!" depth={depth}"
  | .scopePop scope merged depth =>
    "  <<< POP   " ++ column scope ++ s!" depth={depth} " ++ if merged then "merged" else "discarded"
  | .killObserved scope fault => "  xxx KILL  " ++ fault ++ " observed in " ++ scope
  | .compensationStart scope => "  ~~> COMP  " ++ scope
  | .compensationEnd scope => "  <~~ COMP  " ++ scope ++ " done, termination restored"
  | .faultDispatch scope fault => "  !!! FAULT " ++ fault ++ " -> handler in " ++ scope
  | .faultCaptured scope fault => "  !!! FAULT " ++ fault ++ " unhandled in " ++ scope
  | .faultRaised scope fault => "  !!! FAULT " ++ fault ++ " leaves " ++ scope

def reached (l : Log) : Bool :=
  match l.limit with
  | some limit => limit ≤ l.lines
  | none => false

def write (l : Log) (e : Event) : Log :=
  if l.reached then l
  else
    let l := { l with lines := l.lines + 1, text := l.text ++ describe e ++ "\n" }
    if l.reached then
      { l with text := l.text ++ s!"--- trace limit reached ({l.lines} lines) ---\n" }
    else l

instance : Tracer Log := ⟨write⟩

end Log

end Orchestration
