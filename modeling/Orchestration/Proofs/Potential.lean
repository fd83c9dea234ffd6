import Orchestration.Proofs.Derivation
import Orchestration.Trace.Recording

/-!
# Nothing runs twice

Every activity of a program has a price, and every handler that is installed has a fee.
The prices and fees of the work and of the handler tables pay in advance: performing an
activity uses its price up, and taking a handler or a compensation out of its table uses
the fee up that was paid for installing it. So no node of a program is performed twice,
and no installed handler starts twice.
-/

set_option autoImplicit false

namespace Orchestration

open Activity

namespace Engine

variable {τ : Type}

namespace Start

def performs (kind : Activity → Bool) (x : Start τ) : Bool :=
  match x.work with
  | .perform p => kind p
  | _ => false

/-- Whether a `compensate` is performed here that finds a compensation. -/
def finds (x : Start τ) : Bool :=
  match x.work with
  | .perform (.compensate id) => (x.session.takeVisible? id).isSome
  | _ => false

/-- Whether a scope settles here what it has taken from its table for the role. -/
def settles (role : Role) (x : Start τ) : Bool :=
  match x.work with
  | .settle role' _ _ => role' = role
  | _ => false

/-- Whether an activity starts here that was taken out of a handler table. -/
def takes (x : Start τ) : Bool := x.finds || x.settles .compensation || x.settles .handler

def cost (price : Activity → Nat) (fee : Nat) (x : Start τ) : Nat :=
  (match x.work with
    | .perform p => price p
    | _ => 0) + x.takes.toNat * fee

end Start

/-! ## Payment in advance -/

variable {price : Activity → Nat} {fee : Nat}

/-- What a single activity has to pay: its price, and the fees of what it installs. -/
def charge (price : Activity → Nat) (fee : Nat) (p : Activity) : Nat := price p + p.installed * fee

/-- What is paid for an activity in a table: its fee and the charges of all its parts. -/
def deposit (price : Activity → Nat) (fee : Nat) (p : Activity) : Nat :=
  fee + p.total (charge price fee)

theorem deposits_eq (hs : List (Target × Activity)) :
    sumOf (deposit price fee) hs =
      hs.length * fee + totalOfHandlers (charge price fee) hs := by
  induction hs with
  | nil => simp [sumOf, totalOfHandlers]
  | cons h hs ih =>
    rw [sumOf, ih, List.length_cons, Nat.add_mul, totalOfHandlers, deposit]
    omega

theorem total_install (hs : List (Target × Activity)) :
    (install hs).total (charge price fee) =
      price (install hs) + sumOf (deposit price fee) hs := by
  rw [total, deposits_eq, charge, installed]
  omega

theorem price_le_total (price : Activity → Nat) (fee : Nat) (p : Activity) :
    price p ≤ p.total (charge price fee) := by
  cases p <;> simp only [total, charge] <;> omega

theorem Within.weight_le {w : Activity → Nat} {n : Nat} {α : Type} {s : Session τ}
    {r : Answer τ α} (h : Session.Within w n n s r) : r.2.weight w ≤ s.weight w := by
  obtain ⟨least, most⟩ := h
  omega

theorem weight_atomic_le (price : Activity → Nat) (fee : Nat) {p : Activity} {s : Session τ}
    {r : Answer τ Unit} (atom : atomic? p s = some r) :
    price p + r.2.weight (deposit price fee) ≤
      p.total (charge price fee) + s.weight (deposit price fee) := by
  have paid := price_le_total price fee p
  have kept (h : r.2.weight (deposit price fee) ≤ s.weight (deposit price fee)) :
      price p + r.2.weight (deposit price fee) ≤
        p.total (charge price fee) + s.weight (deposit price fee) := by omega
  cases p with
  | nil => cases atom; exact kept (Nat.le_refl _)
  | assign path value => cases atom; exact kept (Within.weight_le (Session.within_write ..))
  | print parts => cases atom; exact kept (Within.weight_le (Session.within_offerAll ..))
  | throw name payload => cases atom; exact kept (Nat.le_refl _)
  | kill name payload => cases atom; exact kept (Nat.le_refl _)
  | install hs =>
    cases atom
    have added := weight_installAll_le (w := deposit price fee) hs s
    rw [total_install]
    simp only [Session.done]
    omega
  | compensate scope =>
    simp only [atomic?] at atom
    split at atom <;> cases atom
    exact kept (Nat.le_refl _)
  | exit => cases atom; exact kept (Nat.le_refl _)
  | sequence ps => cases atom
  | parallel ps => cases atom
  | scope id body autoPop => cases atom

def Work.paid (price : Activity → Nat) (fee : Nat) : Work → Nat
  | .run p => p.total (charge price fee)
  | .perform p => p.total (charge price fee)
  | .children _ ps => totalOf (charge price fee) ps
  | .settle .body _ p => p.total (charge price fee)
  | .settle _ _ p => deposit price fee p

def spent (price : Activity → Nat) (fee : Nat) : List (Start τ) → Nat
  | [] => 0
  | x :: starts => x.cost price fee + spent price fee starts

theorem spent_cons (x : Start τ) (starts : List (Start τ)) :
    spent price fee (x :: starts) = x.cost price fee + spent price fee starts := rfl

theorem spent_append (starts starts' : List (Start τ)) :
    spent price fee (starts ++ starts') = spent price fee starts + spent price fee starts' := by
  induction starts with
  | nil => simp [spent]
  | cons x starts ih => rw [List.cons_append, spent_cons, spent_cons, ih, Nat.add_assoc]

theorem settle_paid (price : Activity → Nat) (fee : Nat) (role : Role) (id : String) (p : Activity)
    (s : Session τ) :
    (Start.mk (.settle role id p) s).cost price fee + p.total (charge price fee) =
      (Work.settle role id p).paid price fee := by
  cases role <;> simp [Start.cost, Start.takes, Start.finds, Start.settles, Work.paid, deposit]

theorem run_cost (p : Activity) (s : Session τ) :
    (Start.mk (.run p) s).cost price fee = 0 := by
  simp [Start.cost, Start.takes, Start.finds, Start.settles]

theorem children_cost (ends : Bool) (ps : List Activity) (s : Session τ) :
    (Start.mk (.children ends ps) s).cost price fee = 0 := by
  simp [Start.cost, Start.takes, Start.finds, Start.settles]

theorem perform_cost (p : Activity) (s : Session τ)
    (none : (Start.mk (.perform p) s).finds = false) :
    (Start.mk (.perform p) s).cost price fee = price p := by
  simp [Start.cost, Start.takes, Start.settles, none]

theorem atomic_finds {p : Activity} {s : Session τ} {r : Answer τ Unit}
    (atom : atomic? p s = some r) : (Start.mk (.perform p) s).finds = false := by
  cases p <;> simp_all [Start.finds, atomic?]

theorem weight_step {w : Activity → Nat} {s s₁ : Session τ} {e : Except Stop Unit}
    (step : s.step = (e, s₁)) : s₁.weight w ≤ s.weight w := by
  have kept := Within.weight_le (w := w) (Session.within_step s)
  rwa [step] at kept

/-- What the starts cost and what the tables hold at the end is covered by what was paid at the
start, and so is what each of the works has paid and finds in the tables. -/
structure Covered (price : Activity → Nat) (fee : Nat) (w : Work) (s : Session τ)
    (starts : List (Start τ)) (s' : Session τ) : Prop where
  spent : spent price fee starts + s'.weight (deposit price fee) ≤
    w.paid price fee + s.weight (deposit price fee)
  starts : ∀ x ∈ starts, x.work.paid price fee + x.session.weight (deposit price fee) ≤
    w.paid price fee + s.weight (deposit price fee)

theorem Covered.cons {w w' : Work} {s s₁ s' s'' : Session τ} {starts : List (Start τ)}
    (part : Covered price fee w' s₁ starts s')
    (enough : w'.paid price fee + s₁.weight (deposit price fee) +
      (Start.mk w s).cost price fee ≤ w.paid price fee + s.weight (deposit price fee))
    (kept : s''.weight (deposit price fee) ≤ s'.weight (deposit price fee)) :
    Covered price fee w s (⟨w, s⟩ :: starts) s'' where
  spent := by
    have paid := part.spent
    rw [spent_cons]
    omega
  starts := by
    intro x started
    rcases List.mem_cons.mp started with rfl | inner
    · exact Nat.le_refl _
    · have paid := part.starts x inner
      omega

theorem Covered.both {w w₁ w₂ : Work} {s s₁ s₂ s₃ s₄ s' : Session τ}
    {starts starts' : List (Start τ)} (first : Covered price fee w₁ s₁ starts s₂)
    (second : Covered price fee w₂ s₃ starts' s₄) (rest : Nat)
    (enough : w₁.paid price fee + s₁.weight (deposit price fee) + rest +
      (Start.mk w s).cost price fee ≤ w.paid price fee + s.weight (deposit price fee))
    (left : w₂.paid price fee + s₃.weight (deposit price fee) ≤
      s₂.weight (deposit price fee) + rest)
    (kept : s'.weight (deposit price fee) ≤ s₄.weight (deposit price fee)) :
    Covered price fee w s (⟨w, s⟩ :: (starts ++ starts')) s' where
  spent := by
    have paid := first.spent
    have paid' := second.spent
    rw [spent_cons, spent_append]
    omega
  starts := by
    intro x started
    have paid := first.spent
    rcases List.mem_cons.mp started with rfl | inner
    · exact Nat.le_refl _
    · rcases List.mem_append.mp inner with left | right
      · have paid := first.starts x left
        omega
      · have paid' := second.starts x right
        omega

theorem covered_alone {w : Work} {s s' : Session τ}
    (enough : (Start.mk w s).cost price fee + s'.weight (deposit price fee) ≤
      w.paid price fee + s.weight (deposit price fee)) : Covered price fee w s [⟨w, s⟩] s' where
  spent := by
    rw [spent_cons]
    exact enough
  starts := by
    intro x started
    cases List.mem_singleton.mp started
    exact Nat.le_refl _

theorem Covered.settle {role : Role} {id : String} {p : Activity} {s s₁ s' : Session τ}
    {starts : List (Start τ)} (body : Covered price fee (.run p) s starts s₁)
    (kept : s'.weight (deposit price fee) ≤ s₁.weight (deposit price fee)) :
    Covered price fee (.settle role id p) s (⟨.settle role id p, s⟩ :: starts) s' := by
  have paid := settle_paid price fee role id p s
  apply body.cons _ kept
  simp only [Work.paid] at *
  omega

theorem Covered.settleNext {role : Role} {id : String} {p : Activity} {w : Work}
    {s s₁ s₂ s₃ s' : Session τ} {starts starts' : List (Start τ)}
    (body : Covered price fee (.run p) s starts s₁) (second : Covered price fee w s₂ starts' s₃)
    (taken : w.paid price fee + s₂.weight (deposit price fee) ≤ s₁.weight (deposit price fee))
    (kept : s'.weight (deposit price fee) ≤ s₃.weight (deposit price fee)) :
    Covered price fee (.settle role id p) s (⟨.settle role id p, s⟩ :: (starts ++ starts')) s' := by
  have paid := settle_paid price fee role id p s
  apply body.both second 0 _ taken kept
  simp only [Work.paid] at *
  omega

variable [Tracer τ]

theorem weight_pushScope {w : Activity → Nat} {id : String} {s s₁ : Session τ}
    {e : Except Stop Unit} (push : s.pushScope id = (e, s₁)) : s₁.weight w ≤ s.weight w := by
  have kept := Within.weight_le (w := w) (Session.within_pushScope s id)
  rwa [push] at kept

theorem weight_leave {w : Activity → Nat} {id : String} {autoPop : Bool} {v : Verdict}
    {s : Session τ} {r : Answer τ Unit} (left : leave id autoPop v s = r) :
    r.2.weight w ≤ s.weight w := by
  have kept := Within.weight_le (w := w) (leave_within id autoPop v s)
  rwa [left] at kept

/-- Every work is paid for in advance. -/
theorem Yields.covered (price : Activity → Nat) (fee : Nat) {w : Work} {s : Session τ}
    {starts : List (Start τ)} {v : Verdict} {r : Answer τ Unit} (h : Yields w s starts v r) :
    Covered price fee w s starts r.2 := by
  induction h with
  | @refused p s s₁ stop step =>
    have kept := weight_step (w := deposit price fee) step
    apply covered_alone
    rw [run_cost]
    change 0 + s₁.weight _ ≤ _
    omega
  | @stepped p s s₁ starts r step rest ih =>
    have kept := weight_step (w := deposit price fee) step
    apply ih.cons _ (Nat.le_refl _)
    rw [run_cost]
    simp only [Work.paid]
    omega
  | @atomic p s r atom =>
    apply covered_alone
    rw [perform_cost p s (atomic_finds atom)]
    exact weight_atomic_le price fee atom
  | @sequence ps s starts r children ih =>
    apply ih.cons _ (Nat.le_refl _)
    rw [perform_cost _ s rfl]
    simp only [Work.paid, total, charge]
    omega
  | @parallel ps s starts r children ih =>
    apply ih.cons _ (Nat.le_refl _)
    rw [perform_cost _ s rfl]
    simp only [Work.paid, total, charge]
    omega
  | @found id c s s₁ starts r taken undo ih =>
    have gone := Session.weight_takeVisible? (w := deposit price fee) taken
    have cost : (Start.mk (.perform (.compensate id)) s).cost price fee =
        price (.compensate id) + fee := by
      simp [Start.cost, Start.takes, Start.finds, taken]
    apply ih.cons _ (Nat.le_refl _)
    rw [cost]
    simp only [Work.paid, total, charge, deposit] at *
    omega
  | @unopened id body autoPop s s₁ stop push =>
    have kept := weight_pushScope (w := deposit price fee) push
    apply covered_alone
    rw [perform_cost _ s rfl]
    simp only [Work.paid, total, charge]
    omega
  | @unsettled id body autoPop s s₁ s₂ starts stop v push settle ih =>
    have kept := weight_pushScope (w := deposit price fee) push
    apply ih.cons _ (Nat.le_refl _)
    rw [perform_cost _ s rfl]
    simp only [Work.paid, total, charge]
    omega
  | @settled id body autoPop s s₁ s₂ starts v r push settle left ih =>
    have kept := weight_pushScope (w := deposit price fee) push
    apply ih.cons _ (weight_leave left)
    rw [perform_cost _ s rfl]
    simp only [Work.paid, total, charge]
    omega
  | @finished ends s =>
    apply covered_alone
    rw [children_cost]
    change 0 + s.weight _ ≤ _
    omega
  | @passed ends p ps s starts r passes rest ih =>
    apply ih.cons _ (Nat.le_refl _)
    -- The child that is passed over, and in a sequence the ones after it, have paid in vain.
    rw [children_cost]
    cases ends <;> simp only [Work.paid, totalOf, if_true, if_false, Bool.false_eq_true] <;> omega
  | @next ends p ps s s₁ starts starts' r stays first rest ih ih' =>
    apply ih.both ih' (totalOf (charge price fee) ps) _ _ (Nat.le_refl _)
    · rw [children_cost]
      simp only [Work.paid, totalOf]
      omega
    · simp only [Work.paid]
      omega
  | @stopped ends p ps s s₁ starts stop stays first ih =>
    apply ih.cons _ (Nat.le_refl _)
    rw [children_cost]
    simp only [Work.paid, totalOf]
    omega
  | quiet body none ih => exact ih.settle (Nat.le_refl _)
  | killed body pending none ih => exact ih.settle (Nat.le_refl _)
  | undone body pending taken undo ih ih' =>
    have gone := Session.weight_takeCompensation? (w := deposit price fee) taken
    exact ih.settleNext ih' gone (Nat.le_refl _)
  | interrupted body pending taken undo ih ih' =>
    have gone := Session.weight_takeCompensation? (w := deposit price fee) taken
    exact ih.settleNext ih' gone (Nat.le_refl _)
  | captured body none ih => exact ih.settle (Nat.le_refl _)
  | dispatched body taken handling ih ih' =>
    have gone := Session.weight_takeHandler? (w := deposit price fee) taken
    exact ih.settleNext ih' gone (Nat.le_refl _)
  | aborted body ih => exact ih.settle (Nat.le_refl _)

/-! ## Counting with prices and fees -/

section Counts

omit [Tracer τ]

theorem charge_free (price : Activity → Nat) : charge price 0 = price := by
  ext p
  simp [charge]

theorem charge_fees : charge (fun _ => 0) 1 = installed := by
  ext p
  simp [charge]

theorem deposit_free (kind : Activity → Bool) : deposit (fun q => (kind q).toNat) 0 = count kind := by
  ext p
  rw [deposit, charge_free, Nat.zero_add]
  rfl

theorem spent_prices (kind : Activity → Bool) (starts : List (Start τ)) :
    spent (fun q => (kind q).toNat) 0 starts = starts.countP (Start.performs kind) := by
  induction starts with
  | nil => rfl
  | cons x starts ih =>
    obtain ⟨w, s⟩ := x
    rw [spent_cons, ih, List.countP_cons]
    cases w with
    | perform p => cases found : kind p <;> simp [Start.cost, Start.performs, found, Nat.add_comm]
    | _ => simp [Start.cost, Start.performs]

theorem spent_fees (starts : List (Start τ)) :
    spent (fun _ => 0) 1 starts = starts.countP Start.takes := by
  induction starts with
  | nil => rfl
  | cons x starts ih =>
    obtain ⟨w, s⟩ := x
    rw [spent_cons, ih, List.countP_cons]
    cases taken : Start.takes ⟨w, s⟩ <;> cases w <;> simp [Start.cost, taken, Nat.add_comm]

theorem countP_takes (starts : List (Start τ)) :
    starts.countP Start.takes = starts.countP Start.finds +
      (starts.countP (Start.settles .compensation) + starts.countP (Start.settles .handler)) := by
  induction starts with
  | nil => rfl
  | cons x starts ih =>
    obtain ⟨w, s⟩ := x
    rw [List.countP_cons, List.countP_cons, List.countP_cons, List.countP_cons, ih]
    cases w with
    | settle role id p => cases role <;> simp [Start.takes, Start.finds, Start.settles] <;> omega
    | perform p =>
      cases found : Start.finds ⟨.perform p, s⟩ with
      | false => simp [Start.takes, Start.settles, found]
      | true => simp [Start.takes, Start.settles, found]; omega
    | _ => simp [Start.takes, Start.finds, Start.settles]

def Work.count (kind : Activity → Bool) : Work → Nat
  | .run p => p.count kind
  | .perform p => p.count kind
  | .children _ ps => totalOf (fun q => (kind q).toNat) ps
  | .settle _ _ p => p.count kind

theorem paid_prices (kind : Activity → Bool) (w : Work) :
    w.paid (fun q => (kind q).toNat) 0 = w.count kind := by
  cases w with
  | settle role id p =>
    cases role <;> simp [Work.paid, Work.count, deposit_free, charge_free, Activity.count]
  | _ => simp [Work.paid, Work.count, charge_free, Activity.count]

end Counts

/-- Of the activities of a kind no more are performed than the work consists of and the tables
hold. -/
theorem Yields.performs_le {w : Work} {s : Session τ} {starts : List (Start τ)} {v : Verdict}
    {r : Answer τ Unit} (h : Yields w s starts v r) (kind : Activity → Bool) :
    starts.countP (Start.performs kind) + r.2.weight (count kind) ≤
      w.count kind + s.weight (count kind) := by
  have paid := (h.covered (fun q => (kind q).toNat) 0).spent
  rwa [spent_prices, deposit_free, paid_prices] at paid

theorem Yields.count_le {w : Work} {s : Session τ} {starts : List (Start τ)} {v : Verdict}
    {r : Answer τ Unit} (h : Yields w s starts v r) (kind : Activity → Bool) (x : Start τ)
    (started : x ∈ starts) : x.work.count kind + x.session.weight (count kind) ≤
      w.count kind + s.weight (count kind) := by
  have paid := (h.covered (fun q => (kind q).toNat) 0).starts x started
  rwa [deposit_free, paid_prices, paid_prices] at paid

theorem Yields.takes_le {p : Activity} {s : Session τ} {starts : List (Start τ)} {v : Verdict}
    {r : Answer τ Unit} (h : Yields (.run p) s starts v r) :
    starts.countP Start.takes ≤ p.entries + s.weight fun q => 1 + q.entries := by
  have paid := (h.covered (fun _ => 0) 1).spent
  have stored : deposit (fun _ => 0) 1 = fun q => 1 + q.entries := by
    ext q
    rw [deposit, charge_fees, entries]
  rw [spent_fees, Work.paid, charge_fees, stored] at paid
  change _ ≤ p.entries + _ at paid
  omega

end Engine

end Orchestration
