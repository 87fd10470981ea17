import Mathlib.Tactic.TypeStar

/-!
# Machines

A machine takes one event at a time and answers each with its outputs.
-/

namespace CLib

structure Machine (σ ε ω : Type*) where
  step : σ → ε → σ × List ω

namespace Machine

variable {σ τ ε ω : Type*} {m : Machine σ ε ω} {n : Machine τ ε ω}

/-- The state after the events, and all outputs in order. -/
def run (m : Machine σ ε ω) : List ε → σ → σ × List ω
  | [], s => (s, [])
  | e :: es, s => ((m.run es (m.step s e).1).1, (m.step s e).2 ++ (m.run es (m.step s e).1).2)

@[simp]
theorem run_nil (s : σ) : m.run [] s = (s, []) := rfl

theorem run_cons (e : ε) (es : List ε) (s : σ) :
    m.run (e :: es) s = ((m.run es (m.step s e).1).1, (m.step s e).2 ++ (m.run es (m.step s e).1).2) := rfl

/-- What every step keeps, every run keeps. -/
theorem run_invariant {inv : σ → Prop} (hstep : ∀ s e, inv s → inv (m.step s e).1) (es : List ε) {s : σ}
    (h : inv s) : inv (m.run es s).1 := by
  induction es generalizing s with
  | nil => exact h
  | cons e es ih => exact ih (hstep s e h)

def Always (m : Machine σ ε ω) (p : σ → Prop) : List ε → σ → Prop
  | [], s => p s
  | e :: es, s => p s ∧ m.Always p es (m.step s e).1

theorem Always.start {p : σ → Prop} {es : List ε} {s : σ} (h : m.Always p es s) : p s := by
  cases es with
  | nil => exact h
  | cons e es => exact h.1

theorem Always.imp {p p' : σ → Prop} (himp : ∀ s, p s → p' s) {es : List ε} {s : σ} (h : m.Always p es s) :
    m.Always p' es s := by
  induction es generalizing s with
  | nil => exact himp s h
  | cons e es ih => exact ⟨himp s h.1, ih h.2⟩

instance decidableAlways (m : Machine σ ε ω) (p : σ → Prop) [DecidablePred p] :
    (es : List ε) → (s : σ) → Decidable (m.Always p es s)
  | [], s => inferInstanceAs (Decidable (p s))
  | e :: es, s =>
    haveI := decidableAlways m p es (m.step s e).1
    inferInstanceAs (Decidable (p s ∧ m.Always p es (m.step s e).1))

theorem always_of_forall {p : σ → Prop} (hp : ∀ s, p s) (es : List ε) (s : σ) : m.Always p es s := by
  induction es generalizing s with
  | nil => exact hp s
  | cons e es ih => exact ⟨hp s, ih _⟩

/-- What every step keeps that comes from a state with `p`, where the outputs so far count too. -/
theorem run_trace_while {p : σ → Prop} {inv : σ → List ω → Prop} {ok : ε → Prop}
    (hstep : ∀ s t e, ok e → p s → inv s t → inv (m.step s e).1 (t ++ (m.step s e).2)) {es : List ε}
    (hok : ∀ e ∈ es, ok e) {s : σ} {t : List ω} (hp : m.Always p es s) (h : inv s t) :
    inv (m.run es s).1 (t ++ (m.run es s).2) := by
  induction es generalizing s t with
  | nil =>
    rw [run_nil, List.append_nil]
    exact h
  | cons e es ih =>
    rw [run_cons, ← List.append_assoc]
    refine ih (fun e' he' => hok e' (List.mem_cons_of_mem e he')) hp.2 ?_
    exact hstep s t e (hok e List.mem_cons_self) hp.1 h

theorem run_trace {inv : σ → List ω → Prop} {ok : ε → Prop}
    (hstep : ∀ s t e, ok e → inv s t → inv (m.step s e).1 (t ++ (m.step s e).2)) {es : List ε} (hok : ∀ e ∈ es, ok e)
    {s : σ} {t : List ω} (h : inv s t) : inv (m.run es s).1 (t ++ (m.run es s).2) :=
  run_trace_while (fun s t e he _ => hstep s t e he) hok (always_of_forall (fun _ => trivial) es s) h

/-- Every event meets its condition in the state in which it comes. -/
def Meets (m : Machine σ ε ω) (ok : σ → ε → Prop) : List ε → σ → Prop
  | [], _ => True
  | e :: es, s => ok s e ∧ m.Meets ok es (m.step s e).1

instance decidableMeets (m : Machine σ ε ω) (ok : σ → ε → Prop) [∀ s, DecidablePred (ok s)] :
    (es : List ε) → (s : σ) → Decidable (m.Meets ok es s)
  | [], _ => isTrue trivial
  | e :: es, s =>
    haveI := decidableMeets m ok es (m.step s e).1
    inferInstanceAs (Decidable (ok s e ∧ m.Meets ok es (m.step s e).1))

/-- What such events keep, holds in every state of the run. -/
theorem always_of_meets {inv : σ → Prop} {ok : σ → ε → Prop} (hstep : ∀ s e, ok s e → inv s → inv (m.step s e).1)
    {es : List ε} {s : σ} (hok : m.Meets ok es s) (h : inv s) : m.Always inv es s := by
  induction es generalizing s with
  | nil => exact h
  | cons e es ih => exact ⟨h, ih hok.2 (hstep s e hok.1 h)⟩

/-- All states of a run have `p` exactly when its events meet the condition, if that holds of each step. -/
theorem always_iff_meets {inv p : σ → Prop} {ok : σ → ε → Prop}
    (hstep : ∀ s e, inv s → p s → inv (m.step s e).1 ∧ (p (m.step s e).1 ↔ ok s e)) (es : List ε) {s : σ} (h : inv s)
    (hp : p s) : m.Always p es s ↔ m.Meets ok es s := by
  induction es generalizing s with
  | nil => simp [Always, Meets, hp]
  | cons e es ih =>
    obtain ⟨hnext, hiff⟩ := hstep s e h hp
    constructor
    · rintro ⟨-, hrest⟩
      exact ⟨hiff.mp hrest.start, (ih hnext hrest.start).mp hrest⟩
    · rintro ⟨hok, hrest⟩
      exact ⟨hp, (ih hnext (hiff.mpr hok)).mpr hrest⟩

/-- All outputs of a run are good exactly when its events meet the condition, if that holds of each step. -/
theorem outputs_iff_meets {inv : σ → Prop} {ok : σ → ε → Prop} {good : ω → Prop}
    (hstep : ∀ s e, inv s → inv (m.step s e).1 ∧ ((∀ o ∈ (m.step s e).2, good o) ↔ ok s e)) (es : List ε) {s : σ}
    (h : inv s) : inv (m.run es s).1 ∧ ((∀ o ∈ (m.run es s).2, good o) ↔ m.Meets ok es s) := by
  induction es generalizing s with
  | nil =>
    refine ⟨h, ?_⟩
    simp [Meets]
  | cons e es ih =>
    obtain ⟨hnext, hgood⟩ := hstep s e h
    obtain ⟨hlast, hrest⟩ := ih hnext
    refine ⟨hlast, ?_⟩
    rw [run_cons, List.forall_mem_append, hgood, hrest]
    rfl

/-- Between states with `p`, every step of `m` is matched by `n`, with the same outputs. -/
def RefinesWhile (m : Machine σ ε ω) (n : Machine τ ε ω) (p : σ → Prop) (rel : σ → τ → Prop) : Prop :=
  ∀ s t e, p s → p (m.step s e).1 → rel s t → rel (m.step s e).1 (n.step t e).1 ∧ (m.step s e).2 = (n.step t e).2

theorem RefinesWhile.run {p : σ → Prop} {rel : σ → τ → Prop} (href : RefinesWhile m n p rel) {es : List ε} {s : σ}
    {t : τ} (hp : m.Always p es s) (h : rel s t) :
    rel (m.run es s).1 (n.run es t).1 ∧ (m.run es s).2 = (n.run es t).2 := by
  induction es generalizing s t with
  | nil => exact ⟨h, rfl⟩
  | cons e es ih =>
    obtain ⟨hs, hrest⟩ := hp
    obtain ⟨hrel, hout⟩ := href s t e hs hrest.start h
    obtain ⟨hrels, houts⟩ := ih hrest hrel
    refine ⟨hrels, ?_⟩
    rw [run_cons, run_cons, hout, houts]

def Refines (m : Machine σ ε ω) (n : Machine τ ε ω) (rel : σ → τ → Prop) : Prop :=
  ∀ s t e, rel s t → rel (m.step s e).1 (n.step t e).1 ∧ (m.step s e).2 = (n.step t e).2

theorem Refines.run {rel : σ → τ → Prop} (href : Refines m n rel) (es : List ε) {s : σ} {t : τ} (h : rel s t) :
    rel (m.run es s).1 (n.run es t).1 ∧ (m.run es s).2 = (n.run es t).2 := by
  have hwhile : RefinesWhile m n (fun _ => True) rel := fun s t e _ _ h => href s t e h
  exact hwhile.run (always_of_forall (fun _ => trivial) es s) h

theorem run_append (es es' : List ε) (s : σ) :
    m.run (es ++ es') s = ((m.run es' (m.run es s).1).1, (m.run es s).2 ++ (m.run es' (m.run es s).1).2) := by
  induction es generalizing s with
  | nil => rfl
  | cons e es ih => rw [List.cons_append, run_cons, run_cons, ih, List.append_assoc]

/-- For each event the events of another machine, which may depend on the state. -/
def translated {ε' : Type*} (m : Machine σ ε ω) (f : σ → ε → List ε') : List ε → σ → List ε'
  | [], _ => []
  | e :: es, s => f s e ++ m.translated f es (m.step s e).1

theorem forall_mem_translated {ε' : Type*} {f : σ → ε → List ε'} {ok : ε → Prop} {ok' : ε' → Prop}
    (hf : ∀ s e, ok e → ∀ e' ∈ f s e, ok' e') {es : List ε} (hok : ∀ e ∈ es, ok e) (s : σ) :
    ∀ e' ∈ m.translated f es s, ok' e' := by
  induction es generalizing s with
  | nil => exact fun e' he' => absurd he' List.not_mem_nil
  | cons e es ih =>
    rw [translated, List.forall_mem_append]
    exact ⟨hf s e (hok e List.mem_cons_self), ih (fun e' he' => hok e' (List.mem_cons_of_mem e he')) _⟩

/-- Every step of `m` is matched by a run of `n`, with the same outputs. -/
def SimulatedBy {ε' : Type*} (m : Machine σ ε ω) (n : Machine τ ε' ω) (f : σ → ε → List ε') (ok : ε → Prop)
    (rel : σ → τ → Prop) : Prop :=
  ∀ s t e, ok e → rel s t → rel (m.step s e).1 (n.run (f s e) t).1 ∧ (m.step s e).2 = (n.run (f s e) t).2

theorem SimulatedBy.run {ε' : Type*} {n : Machine τ ε' ω} {f : σ → ε → List ε'} {ok : ε → Prop} {rel : σ → τ → Prop}
    (hsim : SimulatedBy m n f ok rel) {es : List ε} (hok : ∀ e ∈ es, ok e) {s : σ} {t : τ} (h : rel s t) :
    rel (m.run es s).1 (n.run (m.translated f es s) t).1 ∧ (m.run es s).2 = (n.run (m.translated f es s) t).2 := by
  induction es generalizing s t with
  | nil => exact ⟨h, rfl⟩
  | cons e es ih =>
    obtain ⟨hrel, hout⟩ := hsim s t e (hok e List.mem_cons_self) h
    obtain ⟨hrels, houts⟩ := ih (fun e' he' => hok e' (List.mem_cons_of_mem e he')) hrel
    rw [translated, run_append, run_cons, hout, houts]
    exact ⟨hrels, rfl⟩

end Machine

end CLib
