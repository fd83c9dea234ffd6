import Orchestration.Program

/-!
# What is written in a program

A program holds paths, texts and lists. A condition on paths and one on lengths, which
are taken of lists in items and of texts in bytes, hold of a program when they hold at
each place of its tree.
-/

set_option autoImplicit false

namespace Orchestration

variable (path : Path → Prop) (length : Nat → Prop)

def Value.Meets : Value → Prop
  | .str s => length s.utf8ByteSize
  | _ => True

def Target.Meets : Target → Prop
  | .fault name => length name.utf8ByteSize
  | _ => True

namespace Expr

mutual

def Meets : Expr → Prop
  | .literal v => v.Meets length
  | .path p => path p
  | .concat parts => length parts.length ∧ MeetAll parts

def MeetAll : List Expr → Prop
  | [] => True
  | e :: rest => e.Meets ∧ MeetAll rest

end

theorem meetAll_iff (es : List Expr) :
    MeetAll path length es ↔ ∀ e ∈ es, e.Meets path length := by
  induction es with
  | nil => simp [MeetAll]
  | cons e es ih => simp [MeetAll, ih]

end Expr

namespace Activity

mutual

def Meets : Activity → Prop
  | .nil => True
  | .sequence ps => length ps.length ∧ MeetAll ps
  | .parallel ps => length ps.length ∧ MeetAll ps
  | .assign p value => path p ∧ value.Meets path length
  | .print parts => length parts.length ∧ Expr.MeetAll path length parts
  | .throw fault payload => length fault.utf8ByteSize ∧ ∀ e ∈ payload, Expr.Meets path length e
  | .kill fault payload => length fault.utf8ByteSize ∧ ∀ e ∈ payload, Expr.Meets path length e
  | .install handlers => length handlers.length ∧ MeetHandlers handlers
  | .compensate id => length id.utf8ByteSize
  | .scope id body _ => length id.utf8ByteSize ∧ body.Meets
  | .exit => True

def MeetAll : List Activity → Prop
  | [] => True
  | p :: rest => p.Meets ∧ MeetAll rest

def MeetHandlers : List (Target × Activity) → Prop
  | [] => True
  | (t, p) :: rest => t.Meets length ∧ p.Meets ∧ MeetHandlers rest

end

theorem meetAll_iff (ps : List Activity) :
    MeetAll path length ps ↔ ∀ p ∈ ps, p.Meets path length := by
  induction ps with
  | nil => simp [MeetAll]
  | cons p ps ih => simp [MeetAll, ih]

theorem meetHandlers_iff (hs : List (Target × Activity)) :
    MeetHandlers path length hs ↔ ∀ h ∈ hs, h.1.Meets length ∧ h.2.Meets path length := by
  induction hs with
  | nil => simp [MeetHandlers]
  | cons h hs ih => simp [MeetHandlers, ih, and_assoc]

end Activity

/-! ## Two conditions at once -/

variable (path' : Path → Prop) (length' : Nat → Prop)

theorem Value.meets_and (v : Value) :
    v.Meets (fun n => length n ∧ length' n) ↔ v.Meets length ∧ v.Meets length' := by
  cases v <;> simp [Meets]

theorem Target.meets_and (t : Target) :
    t.Meets (fun n => length n ∧ length' n) ↔ t.Meets length ∧ t.Meets length' := by
  cases t <;> simp [Meets]

namespace Expr

mutual

theorem meets_and : ∀ e : Expr,
    e.Meets (fun p => path p ∧ path' p) (fun n => length n ∧ length' n) ↔
      e.Meets path length ∧ e.Meets path' length'
  | .literal v => v.meets_and length length'
  | .path p => Iff.rfl
  | .concat parts => by simp only [Meets, meetAll_and parts, and_and_and_comm]

theorem meetAll_and : ∀ es : List Expr,
    MeetAll (fun p => path p ∧ path' p) (fun n => length n ∧ length' n) es ↔
      MeetAll path length es ∧ MeetAll path' length' es
  | [] => by simp [MeetAll]
  | e :: rest => by simp only [MeetAll, meets_and e, meetAll_and rest, and_and_and_comm]

end

theorem meets_option_and (o : Option Expr) :
    (∀ e ∈ o, e.Meets (fun p => path p ∧ path' p) (fun n => length n ∧ length' n)) ↔
      (∀ e ∈ o, e.Meets path length) ∧ ∀ e ∈ o, e.Meets path' length' := by
  simp only [meets_and, forall_and]

end Expr

namespace Activity

mutual

theorem meets_and : ∀ p : Activity,
    p.Meets (fun q => path q ∧ path' q) (fun n => length n ∧ length' n) ↔
      p.Meets path length ∧ p.Meets path' length'
  | .nil => by simp [Meets]
  | .sequence ps => by simp only [Meets, meetAll_and ps, and_and_and_comm]
  | .parallel ps => by simp only [Meets, meetAll_and ps, and_and_and_comm]
  | .assign p value => by simp only [Meets, value.meets_and, and_and_and_comm]
  | .print parts => by simp only [Meets, Expr.meetAll_and, and_and_and_comm]
  | .throw _ payload => by simp only [Meets, Expr.meets_option_and, and_and_and_comm]
  | .kill _ payload => by simp only [Meets, Expr.meets_option_and, and_and_and_comm]
  | .install hs => by simp only [Meets, meetHandlers_and hs, and_and_and_comm]
  | .compensate _ => Iff.rfl
  | .scope _ body _ => by simp only [Meets, meets_and body, and_and_and_comm]
  | .exit => by simp [Meets]

theorem meetAll_and : ∀ ps : List Activity,
    MeetAll (fun q => path q ∧ path' q) (fun n => length n ∧ length' n) ps ↔
      MeetAll path length ps ∧ MeetAll path' length' ps
  | [] => by simp [MeetAll]
  | p :: rest => by simp only [MeetAll, meets_and p, meetAll_and rest, and_and_and_comm]

theorem meetHandlers_and : ∀ hs : List (Target × Activity),
    MeetHandlers (fun q => path q ∧ path' q) (fun n => length n ∧ length' n) hs ↔
      MeetHandlers path length hs ∧ MeetHandlers path' length' hs
  | [] => by simp [MeetHandlers]
  | (t, p) :: rest => by
    simp only [MeetHandlers, t.meets_and, meets_and p, meetHandlers_and rest, and_and_and_comm]

end

end Activity

namespace Program

/-- All segment names of the program's paths are ones that a written path can hold. -/
def PathsValid (p : Program) : Prop := p.main.Meets Path.Valid fun _ => True

/-- A 64-bit word can count the items of each list and the bytes of each text, as it can in
whatever program a memory holds. -/
def Countable (p : Program) : Prop :=
  p.main.Meets (fun q => q.text.utf8ByteSize < UInt64.size) (· < UInt64.size)

theorem valid_and_countable (p : Program) :
    p.PathsValid ∧ p.Countable ↔
      p.main.Meets (fun q => q.Valid ∧ q.text.utf8ByteSize < UInt64.size) (· < UInt64.size) := by
  unfold PathsValid Countable
  rw [← Activity.meets_and]
  simp only [true_and]

end Program

end Orchestration
