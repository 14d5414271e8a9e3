import Mathlib

/-!
# Runs of a Step Function

A deterministic machine is a step function `σ → ε → σ` over states and events; a run is
a list of events folded from a start state. This module collects the induction rules the
verification uses for runs, over arbitrary state and event types.

## Main results

* `foldl_history`: an invariant that may mention the events made so far holds after
  every run, if it holds at the start and each step carries it from the history to the
  history extended by one event.
* `foldl_history_along`: the same rule for the runs whose steps all meet a side
  condition on the history, the state before the step, and the event.
* `occurs_concat_iff`: whether some step of a run met a condition, by its last step.
* `since_concat_iff`: the same for a condition that another one ends.
* `noted_of_changed`: what a run comes to show has been noted by one of its steps.
* `abs_foldl_of_steps`: a refinement of every step is one of the run.
* `answers_filter_of_idle`: events that leave the state alone can be left out.
* `Monotone.answers_filter`: a simulation that skips invisible events gives the visible
  answers of both machines along every run with non-decreasing marks.
-/

namespace Runs

variable {σ τ ε ω μ : Type*}

/-! ### Invariants over the history of a run -/

/-- **History induction.** An invariant relating the events made so far to the state
reached holds after every run, if the empty history satisfies it and one step carries
it over. -/
theorem foldl_history {step : σ → ε → σ} {s₀ : σ} {I : List ε → σ → Prop}
    (init : I [] s₀)
    (next : ∀ pre e, I pre (pre.foldl step s₀) →
      I (pre ++ [e]) (step (pre.foldl step s₀) e)) (es : List ε) :
    I es (es.foldl step s₀) := by
  induction es using List.reverseRecOn with
  | nil => exact init
  | append_singleton pre e ih =>
      rw [List.foldl_append]
      exact next pre e ih

/-- Every step of the run `es` from `s₀` meets `C`, given the events before it and the
state they lead to. -/
def Along (step : σ → ε → σ) (s₀ : σ) (C : List ε → σ → ε → Prop) (es : List ε) : Prop :=
  ∀ pre e post, es = pre ++ e :: post → C pre (pre.foldl step s₀) e

/-- A prefix of a run whose steps meet a condition is again such a run. -/
theorem Along.of_append {step : σ → ε → σ} {s₀ : σ} {C : List ε → σ → ε → Prop}
    {pre post : List ε} (h : Along step s₀ C (pre ++ post)) : Along step s₀ C pre := by
  intro p e q hpq
  refine h p e (q ++ post) ?_
  rw [hpq, List.append_assoc, List.cons_append]

/-- The last step of a run whose steps meet a condition meets it. -/
theorem Along.last {step : σ → ε → σ} {s₀ : σ} {C : List ε → σ → ε → Prop}
    {pre : List ε} {e : ε} (h : Along step s₀ C (pre ++ [e])) :
    C pre (pre.foldl step s₀) e :=
  h pre e [] rfl

/-- The empty run meets every condition. -/
theorem along_nil {step : σ → ε → σ} {s₀ : σ} {C : List ε → σ → ε → Prop} :
    Along step s₀ C [] := by
  intro pre e post h
  exact absurd h (by simp)

/-- Where an event of an extended run stands: at its end, or in the run before. -/
theorem concat_eq_append_cons_iff {es pre post : List ε} {e x : ε} :
    es ++ [e] = pre ++ x :: post ↔
      (es = pre ∧ e = x ∧ post = []) ∨ ∃ post', post = post' ++ [e] ∧ es = pre ++ x :: post' := by
  constructor
  · intro h
    rcases List.eq_nil_or_concat post with rfl | ⟨post, y, rfl⟩
    · obtain ⟨rfl, he⟩ := List.append_inj' h rfl
      exact Or.inl ⟨rfl, List.singleton_inj.mp he, rfl⟩
    · rw [List.concat_eq_append, ← List.cons_append, ← List.append_assoc] at h
      obtain ⟨rfl, he⟩ := List.append_inj' h rfl
      obtain rfl := List.singleton_inj.mp he
      exact Or.inr ⟨post, List.concat_eq_append, rfl⟩
  · rintro (⟨rfl, rfl, rfl⟩ | ⟨post', rfl, rfl⟩)
    · rfl
    · rw [List.append_assoc, List.cons_append]

/-- A run is extended by one step that meets the condition. -/
theorem Along.concat {step : σ → ε → σ} {s₀ : σ} {C : List ε → σ → ε → Prop}
    {es : List ε} {e : ε} (h : Along step s₀ C es) (he : C es (es.foldl step s₀) e) :
    Along step s₀ C (es ++ [e]) := by
  intro pre x post hes
  rcases concat_eq_append_cons_iff.mp hes with ⟨rfl, rfl, -⟩ | ⟨post', -, hes'⟩
  · exact he
  · exact h pre x post' hes'

/-- A longer run meets a condition if the shorter one does, and its last step. -/
theorem along_concat_iff {step : σ → ε → σ} {s₀ : σ} {C : List ε → σ → ε → Prop}
    {es : List ε} {e : ε} :
    Along step s₀ C (es ++ [e]) ↔ Along step s₀ C es ∧ C es (es.foldl step s₀) e :=
  ⟨fun h => ⟨h.of_append, h.last⟩, fun h => h.1.concat h.2⟩

/-- A condition on states and events along a run that starts with one event. -/
theorem along_cons_iff {step : σ → ε → σ} {s : σ} {P : σ → ε → Prop} {e : ε} {es : List ε} :
    Along step s (fun _ => P) (e :: es) ↔ P s e ∧ Along step (step s e) (fun _ => P) es := by
  constructor
  · intro h
    refine ⟨h [] e es rfl, fun pre x post hes => ?_⟩
    exact h (e :: pre) x post (by rw [hes]; rfl)
  · rintro ⟨he, h⟩ pre x post hes
    cases pre with
    | nil =>
        obtain ⟨rfl, -⟩ := List.cons.inj hes
        exact he
    | cons y pre =>
        obtain ⟨rfl, htail⟩ := List.cons.inj hes
        exact h pre x post htail

/-- History induction for the runs whose steps all meet `C`: the step case may use the
condition of the step it extends the run by. -/
theorem foldl_history_along {step : σ → ε → σ} {s₀ : σ} {C : List ε → σ → ε → Prop}
    {I : List ε → σ → Prop} (init : I [] s₀)
    (next : ∀ pre e, C pre (pre.foldl step s₀) e → I pre (pre.foldl step s₀) →
      I (pre ++ [e]) (step (pre.foldl step s₀) e))
    {es : List ε} (h : Along step s₀ C es) : I es (es.foldl step s₀) := by
  induction es using List.reverseRecOn with
  | nil => exact init
  | append_singleton pre e ih =>
      rw [List.foldl_append]
      exact next pre e h.last (ih h.of_append)

/-- Some step of the run `es` meets `C`, given the events before it. -/
def Occurs (C : List ε → ε → Prop) (es : List ε) : Prop :=
  ∃ pre e post, es = pre ++ e :: post ∧ C pre e

/-- **A step that meets a condition** is the last one of the run, or it came before. -/
theorem occurs_concat_iff {C : List ε → ε → Prop} {es : List ε} {e : ε} :
    Occurs C (es ++ [e]) ↔ Occurs C es ∨ C es e := by
  constructor
  · rintro ⟨pre, x, post, h, hC⟩
    rcases concat_eq_append_cons_iff.mp h with ⟨rfl, rfl, -⟩ | ⟨post', -, hes⟩
    · exact Or.inr hC
    · exact Or.inl ⟨pre, x, post', hes, hC⟩
  · rintro (⟨pre, x, post, rfl, hC⟩ | hC)
    · exact ⟨pre, x, post ++ [e], by rw [List.append_assoc, List.cons_append], hC⟩
    · exact ⟨es, e, [], rfl, hC⟩

/-- Some step of the run `es` meets `A`, and no step after it meets `B`. -/
def Since (A B : ε → Prop) (es : List ε) : Prop :=
  ∃ pre e post, es = pre ++ e :: post ∧ A e ∧ ∀ x ∈ post, ¬ B x

/-- Nothing has happened in the empty run. -/
theorem not_since_nil {A B : ε → Prop} : ¬ Since A B [] := by
  rintro ⟨pre, e, post, h, -⟩
  exact absurd h (by simp)

/-- **Since when** a condition holds is told by the last step of the run. -/
theorem since_concat_iff {A B : ε → Prop} {es : List ε} {e : ε} :
    Since A B (es ++ [e]) ↔ A e ∨ Since A B es ∧ ¬ B e := by
  constructor
  · rintro ⟨pre, x, post, h, hA, hB⟩
    rcases concat_eq_append_cons_iff.mp h with ⟨rfl, rfl, -⟩ | ⟨post', rfl, hes⟩
    · exact Or.inl hA
    · exact Or.inr ⟨⟨pre, x, post', hes, hA, fun y hy => hB y (List.mem_append_left _ hy)⟩,
        hB e (by simp)⟩
  · rintro (hA | ⟨⟨pre, x, post, rfl, hA, hB⟩, he⟩)
    · exact ⟨es, e, [], rfl, hA, by simp⟩
    · refine ⟨pre, x, post ++ [e], by rw [List.append_assoc, List.cons_append], hA, fun y hy => ?_⟩
      rcases List.mem_append.mp hy with hy | hy
      · exact hB y hy
      · exact List.mem_singleton.mp hy ▸ he

/-- **A change does not go unnoted.** If every step of a run keeps what there is to see,
hides it, or is noted, then what is seen after the run and was not seen before it is noted
on the way. -/
theorem noted_of_changed {β : Type*} {step : σ → ε → σ} (view : σ → Option β)
    {noted : σ → ε → Prop} {s₀ : σ} {es : List ε} {b : β}
    (h : Along step s₀ (fun _ s e => view (step s e) = view s ∨ view (step s e) = none ∨ noted s e)
      es) (hafter : view (es.foldl step s₀) = some b) (hbefore : view s₀ ≠ some b) :
    Occurs (fun pre e => noted (pre.foldl step s₀) e) es := by
  induction es using List.reverseRecOn with
  | nil => exact absurd hafter hbefore
  | append_singleton es e ih =>
      rw [List.foldl_append] at hafter
      rcases h.last with hkept | hhidden | hnoted
      · exact occurs_concat_iff.mpr (Or.inl (ih h.of_append (hkept.symm.trans hafter)))
      · exact absurd (hhidden.symm.trans hafter) (by simp)
      · exact occurs_concat_iff.mpr (Or.inr hnoted)

/-! ### Answers and simulation -/

/-- The answers a machine gives along a run, each paired with the event it answers. -/
def answers (step : σ → ε → σ × ω) : σ → List ε → List (ε × ω)
  | _, [] => []
  | s, e :: es => (e, (step s e).2) :: answers step (step s e).1 es

/-- The answer of the last event comes last. -/
theorem answers_concat (step : σ → ε → σ × ω) (s : σ) (es : List ε) (e : ε) :
    answers step s (es ++ [e]) =
      answers step s es ++ [(e, (step (es.foldl (fun s e => (step s e).1) s) e).2)] := by
  induction es generalizing s with
  | nil => rfl
  | cons x es ih => simp only [List.cons_append, answers, ih, List.foldl_cons]

/-- The events of a second machine that the steps of a run lead to. -/
def trace {δ : Type*} (step : σ → ε → σ) (emit : σ → ε → List δ) : σ → List ε → List δ
  | _, [] => []
  | s, e :: es => emit s e ++ trace step emit (step s e) es

/-- What the last event emits comes last. -/
theorem trace_concat {δ : Type*} (step : σ → ε → σ) (emit : σ → ε → List δ) (s : σ) (es : List ε)
    (e : ε) : trace step emit s (es ++ [e]) = trace step emit s es ++ emit (es.foldl step s) e := by
  induction es generalizing s with
  | nil => simp only [List.nil_append, trace, List.foldl_nil, List.append_nil]
  | cons x es ih => simp only [List.cons_append, trace, ih, List.foldl_cons, List.append_assoc]

/-- **Refinement.** If every step of a run takes the abstraction of the state to where the
events it leads to take it, then the run does. -/
theorem abs_foldl_of_steps {δ : Type*} {step : σ → ε → σ} {emit : σ → ε → List δ} {abs : σ → τ}
    {astep : τ → δ → τ} {s₀ : σ} {C : List ε → σ → ε → Prop} {es : List ε}
    (h : Along step s₀ C es)
    (next : ∀ pre e, Along step s₀ C pre → C pre (pre.foldl step s₀) e →
      abs (step (pre.foldl step s₀) e) =
        (emit (pre.foldl step s₀) e).foldl astep (abs (pre.foldl step s₀))) :
    abs (es.foldl step s₀) = (trace step emit s₀ es).foldl astep (abs s₀) := by
  induction es using List.reverseRecOn with
  | nil => rfl
  | append_singleton pre e ih =>
      rw [List.foldl_append, trace_concat, List.foldl_append, ← ih h.of_append]
      exact next pre e h.of_append h.last

/-- **Idle events can be left out.** If the invisible events of a run leave the state alone,
the run without them ends in the same state and gives the same visible answers. -/
theorem answers_filter_of_idle {step : σ → ε → σ × ω} {visible : ε → Bool} {s : σ} {es : List ε}
    (h : Along (fun s e => (step s e).1) s
      (fun _ s e => visible e = false → (step s e).1 = s) es) :
    (es.filter visible).foldl (fun s e => (step s e).1) s =
        es.foldl (fun s e => (step s e).1) s ∧
      answers step s (es.filter visible) = (answers step s es).filter (fun p => visible p.1) := by
  induction es generalizing s with
  | nil => exact ⟨rfl, rfl⟩
  | cons e es ih =>
      obtain ⟨he, hes⟩ := along_cons_iff.mp h
      obtain ⟨hstate, hans⟩ := ih hes
      cases hv : visible e with
      | true =>
          rw [List.filter_cons_of_pos hv, List.foldl_cons, List.foldl_cons, answers, answers,
            List.filter_cons_of_pos (by rw [hv]), hstate, hans]
          exact ⟨rfl, rfl⟩
      | false =>
          have hidle := he hv
          rw [List.filter_cons_of_neg (by rw [hv]; exact Bool.false_ne_true), List.foldl_cons,
            answers, List.filter_cons_of_neg (by rw [hv]; exact Bool.false_ne_true), hidle]
          rw [hidle] at hstate hans
          exact ⟨hstate, hans⟩

/-- The latest value that `f` reads out of the events of a run. -/
def latest {β : Type*} (f : ε → Option β) (es : List ε) : Option β :=
  es.reverse.findSome? f

/-- The events from `e` on decide, if one of them has a value. -/
theorem latest_append_cons {β : Type*} (f : ε → Option β) (es : List ε) (e : ε) (more : List ε) :
    latest f (es ++ e :: more) = ((latest f more).or (f e)).or (latest f es) := by
  rw [latest, List.reverse_append, List.reverse_cons, List.findSome?_append,
    List.findSome?_append, List.findSome?_singleton]
  rfl

/-- The last event decides, if it has a value. -/
theorem latest_concat {β : Type*} (f : ε → Option β) (es : List ε) (e : ε) :
    latest f (es ++ [e]) = (f e).or (latest f es) := by
  rw [latest, List.reverse_append, List.reverse_singleton, List.singleton_append,
    List.findSome?_cons]
  cases f e <;> rfl

/-- A run whose events carry marks that never decrease, none of them below `m`. -/
def Monotone [LE μ] (mark : ε → μ) : μ → List ε → Prop
  | _, [] => True
  | m, e :: es => m ≤ mark e ∧ Monotone mark (mark e) es

instance instDecidableMonotone [LE μ] [DecidableRel fun a b : μ => a ≤ b] (mark : ε → μ) :
    ∀ (m : μ) (es : List ε), Decidable (Monotone mark m es)
  | _, [] => isTrue trivial
  | m, e :: es =>
    letI := instDecidableMonotone mark (mark e) es
    inferInstanceAs (Decidable (m ≤ mark e ∧ Monotone mark (mark e) es))

/-- A prefix of a monotone run is monotone, and no mark in it exceeds a later one. -/
theorem Monotone.of_concat [LE μ] [Std.IsPreorder μ] {mark : ε → μ} {m : μ} {pre : List ε} {e : ε}
    (h : Monotone mark m (pre ++ [e])) :
    Monotone mark m pre ∧ m ≤ mark e ∧ ∀ x ∈ pre, mark x ≤ mark e := by
  induction pre generalizing m with
  | nil => exact ⟨trivial, h.1, by simp⟩
  | cons x pre ih =>
      obtain ⟨hmx, hrest⟩ := h
      obtain ⟨hpre, hxe, hall⟩ := ih hrest
      refine ⟨⟨hmx, hpre⟩, Std.le_trans hmx hxe, fun y hy => ?_⟩
      rcases List.mem_cons.mp hy with rfl | hy
      · exact hxe
      · exact hall y hy

/-- **Simulation along a monotone run, up to invisible events.** If a visible event is
answered alike by related states and keeps them related, and an invisible event of the
concrete machine keeps them related with the abstract machine standing still, then the
visible answers of the concrete machine are the answers of the abstract one on the
visible events alone. The relation may depend on a lower bound of the coming marks. -/
theorem Monotone.answers_filter [LE μ] {mark : ε → μ}
    {step : σ → ε → σ × ω} {astep : τ → ε → τ × ω} {visible : ε → Bool}
    {R : μ → σ → τ → Prop}
    (sim : ∀ {m s a e}, R m s a → m ≤ mark e → visible e = true →
      (step s e).2 = (astep a e).2 ∧ R (mark e) (step s e).1 (astep a e).1)
    (skip : ∀ {m s a e}, R m s a → m ≤ mark e → visible e = false →
      R (mark e) (step s e).1 a)
    {m : μ} {s : σ} {a : τ} {es : List ε} (hR : R m s a) (hm : Monotone mark m es) :
    (answers step s es).filter (fun p => visible p.1) =
      answers astep a (es.filter visible) := by
  induction es generalizing m s a with
  | nil => rfl
  | cons e es ih =>
      obtain ⟨hle, hm⟩ := hm
      cases hv : visible e with
      | true =>
          obtain ⟨hans, hR'⟩ := sim hR hle hv
          simp only [answers, List.filter_cons, hv, if_true]
          rw [ih hR' hm, hans]
      | false =>
          simp only [answers, List.filter_cons, hv, Bool.false_eq_true, if_false]
          exact ih (skip hR hle hv) hm

end Runs
