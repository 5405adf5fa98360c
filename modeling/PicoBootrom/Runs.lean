import Mathlib.Algebra.Ring.Nat
import Mathlib.Data.List.Induction
import Mathlib.Tactic.Common

/-!
# Runs of a step function

A system is a step function on states, one step for each event, and a run is a list of
events applied in order. `Always` says that every step of a run satisfies a predicate on
the state before the step and its event. An invariant that holds under a condition on the
steps holds after every run whose steps meet the condition (`Always.invariant`), and what
a step in an invariant state does is done by every step of such a run (`Always.imp`).
-/

namespace Run

variable {σ ε : Type*} (step : σ → ε → σ)

/-- The state after the events `es`. -/
def after (s : σ) (es : List ε) : σ :=
  es.foldl step s

/-- Every step of the run from `s` satisfies `P`. -/
def Always (P : σ → ε → Prop) : σ → List ε → Prop
  | _, [] => True
  | s, e :: es => P s e ∧ Always P (step s e) es

variable {step}

@[simp] theorem after_nil (s : σ) : after step s [] = s :=
  rfl

@[simp] theorem after_cons (s : σ) (e : ε) (es : List ε) :
    after step s (e :: es) = after step (step s e) es :=
  rfl

theorem after_append (s : σ) (es es' : List ε) :
    after step s (es ++ es') = after step (after step s es) es' :=
  List.foldl_append

@[simp] theorem always_nil (P : σ → ε → Prop) (s : σ) : Always step P s [] :=
  trivial

@[simp] theorem always_cons (P : σ → ε → Prop) (s : σ) (e : ε) (es : List ε) :
    Always step P s (e :: es) ↔ P s e ∧ Always step P (step s e) es :=
  Iff.rfl

theorem always_append {P : σ → ε → Prop} {s : σ} {es es' : List ε} :
    Always step P s (es ++ es') ↔ Always step P s es ∧ Always step P (after step s es) es' := by
  induction es generalizing s with
  | nil => simp
  | cons e es ih => simp only [List.cons_append, always_cons, after_cons, ih, and_assoc]

/-- A condition that every event of the run meets in every state. -/
theorem always_of_forall_mem {P : σ → ε → Prop} {es : List ε} (h : ∀ e ∈ es, ∀ s, P s e)
    (s : σ) : Always step P s es := by
  induction es generalizing s with
  | nil => trivial
  | cons e es ih =>
    exact ⟨h e List.mem_cons_self s, ih (fun e' he' => h e' (List.mem_cons_of_mem e he')) _⟩

/-- A predicate on steps that no step can fail. -/
theorem always_of_forall {P : σ → ε → Prop} (h : ∀ s e, P s e) (s : σ) (es : List ε) :
    Always step P s es :=
  always_of_forall_mem (fun e _ s => h s e) s

/-- The step that follows the events `pre`. -/
theorem Always.at {P : σ → ε → Prop} {s : σ} {pre post : List ε} {e : ε}
    (h : Always step P s (pre ++ e :: post)) : P (after step s pre) e :=
  (always_append.1 h).2.1

/-- A list that has a property its empty prefix lacks has a first prefix with the property. -/
theorem exists_first {P : List ε → Prop} (h0 : ¬P []) {es : List ε} (h : P es) :
    ∃ pre e post, es = pre ++ e :: post ∧ ¬P pre ∧ P (pre ++ [e]) := by
  induction es using List.reverseRecOn with
  | nil => exact absurd h h0
  | append_singleton es e ih =>
    by_cases hes : P es
    · obtain ⟨pre, e', post, rfl, hpre, hfirst⟩ := ih hes
      exact ⟨pre, e', post ++ [e], by simp, hpre, hfirst⟩
    · exact ⟨es, e, [], rfl, hes, h⟩

section Invariant

variable {P Q : σ → ε → Prop} {I : σ → Prop}

/-- An invariant of the steps that meet `P` holds after every run of such steps. -/
theorem Always.invariant (hstep : ∀ s e, P s e → I s → I (step s e)) {s : σ} {es : List ε}
    (h : Always step P s es) (hs : I s) : I (after step s es) := by
  induction es generalizing s with
  | nil => exact hs
  | cons e es ih => exact ih h.2 (hstep s e h.1 hs)

/-- A step from an invariant state does `Q`, so every step of the run does. -/
theorem Always.imp (hstep : ∀ s e, P s e → I s → I (step s e))
    (hQ : ∀ s e, P s e → I s → Q s e) {s : σ} {es : List ε}
    (h : Always step P s es) (hs : I s) : Always step Q s es := by
  induction es generalizing s with
  | nil => trivial
  | cons e es ih => exact ⟨hQ s e h.1 hs, ih h.2 (hstep s e h.1 hs)⟩

/-- An invariant of all steps holds after every run. -/
theorem invariant (hstep : ∀ s e, I s → I (step s e)) {s : σ} (hs : I s) (es : List ε) :
    I (after step s es) :=
  Always.invariant (P := fun _ _ => True) (fun s e _ => hstep s e)
    (always_of_forall (fun _ _ => trivial) s es) hs

end Invariant

/-! ## Steps that may fail -/

section Failing

variable {φ : Type*} {step : σ → ε → Except φ σ}

/-- The step of a system whose steps may fail. Nothing happens after a failure. -/
def attempt (step : σ → ε → Except φ σ) (r : Except φ σ) (e : ε) : Except φ σ :=
  r >>= fun s => step s e

/-- A predicate on steps, for those that are taken. -/
def Holds (P : σ → ε → Prop) (r : Except φ σ) (e : ε) : Prop :=
  ∀ s, r = .ok s → P s e

/-- `Always.imp` for steps that may fail : the invariant holds after a step that does not. -/
theorem Always.imp_holds {P Q : σ → ε → Prop} {I : σ → Prop}
    (hstep : ∀ s e s', P s e → I s → step s e = .ok s' → I s')
    (hQ : ∀ s e, P s e → I s → Q s e) {s : σ} {es : List ε}
    (h : Always (attempt step) (Holds P) (.ok s) es) (hs : I s) :
    Always (attempt step) (Holds Q) (.ok s) es := by
  refine Always.imp (I := fun r => ∀ s, r = .ok s → I s) (fun r e hP hI s' hs' => ?_)
    (fun r e hP hI s hr => hQ s e (hP s hr) (hI s hr)) h (fun s' hs' => ?_)
  · cases r with
    | error _ => cases hs'
    | ok s => exact hstep s e s' (hP s rfl) (hI s rfl) hs'
  · cases hs'
    exact hs

end Failing

end Run
