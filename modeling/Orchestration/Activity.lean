import Orchestration.Expr

/-!
# Activities

The tree of actions that a program describes. Handlers and compensations are
activities too: an `install` puts them into the tables of the scope that runs it.
-/

set_option autoImplicit false

namespace Orchestration

inductive Target where
  | fault (name : String)
  /-- Faults that have no handler of their own. -/
  | default
  /-- The compensation of the installing scope. -/
  | this
  deriving DecidableEq, Repr

inductive Activity where
  | nil
  /-- Runs its children in order; once termination is pending, the first killable one ends it. -/
  | sequence (children : List Activity)
  /-- Runs its branches in order; once termination is pending, killable ones are passed over. -/
  | parallel (branches : List Activity)
  | assign (path : Path) (value : Expr)
  | print (parts : List Expr)
  | throw (fault : String) (payload : Option Expr)
  | kill (fault : String) (payload : Option Expr)
  | install (handlers : List (Target × Activity))
  /-- Runs the compensation that a finished scope has left in an open frame. -/
  | compensate (scope : String)
  /-- A scope of the given id; without `autoPop` its frame stays open when it ends. -/
  | scope (id : String) (body : Activity) (autoPop : Bool)
  | exit
  deriving Inhabited

structure ScopeDefinition where
  id : String
  body : Activity
  autoPop : Bool
  deriving Inhabited

namespace ScopeDefinition

def activity (d : ScopeDefinition) : Activity := .scope d.id d.body d.autoPop

def withBody (d : ScopeDefinition) (body : Activity) : ScopeDefinition := { d with body := body }

end ScopeDefinition

namespace Activity

mutual

/-- Whether pending termination may pass over the activity. -/
def killable : Activity → Bool
  | .sequence ps => allKillable ps
  | .parallel ps => allKillable ps
  | .compensate _ => false
  | .scope _ body _ => body.killable
  | _ => true

def allKillable : List Activity → Bool
  | [] => true
  | p :: ps => p.killable && allKillable ps

end

mutual

/-- The sum of a weight over all activities in the tree, those of scope bodies and handlers
included. -/
def total (weight : Activity → Nat) : Activity → Nat
  | .sequence ps => weight (.sequence ps) + totalOf weight ps
  | .parallel ps => weight (.parallel ps) + totalOf weight ps
  | .install hs => weight (.install hs) + totalOfHandlers weight hs
  | .scope id body autoPop => weight (.scope id body autoPop) + body.total weight
  | p => weight p

def totalOf (weight : Activity → Nat) : List Activity → Nat
  | [] => 0
  | p :: ps => p.total weight + totalOf weight ps

def totalOfHandlers (weight : Activity → Nat) : List (Target × Activity) → Nat
  | [] => 0
  | (_, p) :: hs => p.total weight + totalOfHandlers weight hs

end

def nodes (p : Activity) : Nat := p.total fun _ => 1

def totalNodes (ps : List Activity) : Nat := totalOf (fun _ => 1) ps

theorem totalNodes_cons (p : Activity) (ps : List Activity) :
    totalNodes (p :: ps) = p.nodes + totalNodes ps := by simp [totalNodes, totalOf, nodes]

/-- The sum of a weight over the handlers of one `install`, each taken as a whole. -/
def sumOf (weight : Activity → Nat) : List (Target × Activity) → Nat
  | [] => 0
  | (_, p) :: hs => weight p + sumOf weight hs

theorem totalOfHandlers_eq_sumOf (weight : Activity → Nat) (hs : List (Target × Activity)) :
    totalOfHandlers weight hs = sumOf (total weight) hs := by
  induction hs with
  | nil => rfl
  | cons h hs ih => rw [totalOfHandlers, sumOf, ih]

theorem nodes_sequence (ps : List Activity) : (sequence ps).nodes = 1 + totalNodes ps := by
  simp [nodes, total, totalNodes]

theorem nodes_parallel (ps : List Activity) : (parallel ps).nodes = 1 + totalNodes ps := by
  simp [nodes, total, totalNodes]

theorem nodes_install (hs : List (Target × Activity)) :
    (install hs).nodes = 1 + sumOf nodes hs := by
  rw [nodes, total, totalOfHandlers_eq_sumOf]
  rfl

theorem nodes_scope (id : String) (body : Activity) (autoPop : Bool) :
    (scope id body autoPop).nodes = 1 + body.nodes := by simp [nodes, total]

theorem nodes_compensate (scope : String) : (compensate scope).nodes = 1 := by simp [nodes, total]

theorem nodes_pos (p : Activity) : 0 < p.nodes := by
  cases p <;> simp only [nodes, total] <;> omega

def count (kind : Activity → Bool) (p : Activity) : Nat := p.total fun q => (kind q).toNat

def installed : Activity → Nat
  | .install hs => hs.length
  | _ => 0

/-- The number of handlers that the activities in the tree install. -/
def entries (p : Activity) : Nat := p.total installed

mutual

def agrees : Activity → Activity → Bool
  | .nil, .nil => true
  | .sequence ps, .sequence qs => agreeAll ps qs
  | .parallel ps, .parallel qs => agreeAll ps qs
  | .assign p e, .assign q f => p = q && e.agrees f
  | .print es, .print fs => Expr.agreeAll es fs
  | .throw n e, .throw m f => n = m && Expr.agreeOption e f
  | .kill n e, .kill m f => n = m && Expr.agreeOption e f
  | .install hs, .install is => agreeHandlers hs is
  | .compensate s, .compensate t => s = t
  | .scope i p a, .scope j q b => i = j && p.agrees q && a == b
  | .exit, .exit => true
  | _, _ => false

def agreeAll : List Activity → List Activity → Bool
  | [], [] => true
  | p :: ps, q :: qs => p.agrees q && agreeAll ps qs
  | _, _ => false

def agreeHandlers : List (Target × Activity) → List (Target × Activity) → Bool
  | [], [] => true
  | (t, p) :: ps, (u, q) :: qs => t = u && p.agrees q && agreeHandlers ps qs
  | _, _ => false

end

end Activity

end Orchestration
