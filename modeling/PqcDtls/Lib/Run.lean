/-
# Runs of a labelled system

A system is a partial step function on states and labels; a schedule is a
list of labels, and a run of a schedule is defined when every label is enabled
where it is taken. An invariant of the steps is an invariant of the runs
(`run_invariant`), also when only the steps that meet a side condition keep it
(`run_invariant_of_meets`): such a condition is read in the state before the
step, so it can be asked of a schedule from outside.
-/
import Mathlib.Tactic

namespace Lib

section Runs

variable {σ α : Type} (step : σ → α → Option σ)

/-- The state after a schedule, if every label of it is enabled in turn. -/
def run : σ → List α → Option σ
  | s, [] => some s
  | s, a :: as => (step s a).bind fun t => run t as

/-- Every step the schedule takes from `s` meets `ok` in the state before it. -/
def Meets (ok : σ → α → Prop) : σ → List α → Prop
  | _, [] => True
  | s, a :: as => ok s a ∧ ∀ t, step s a = some t → Meets ok t as

theorem run_cons {s t : σ} {a : α} {as : List α} :
    run step s (a :: as) = some t ↔ ∃ u, step s a = some u ∧ run step u as = some t := by
  simp [run, Option.bind_eq_some_iff]

theorem run_append : ∀ (s : σ) (as bs : List α),
    run step s (as ++ bs) = (run step s as).bind fun t => run step t bs
  | s, [], bs => by simp [run]
  | s, a :: as, bs => by
    simp only [List.cons_append, run]
    cases step s a with
    | none => rfl
    | some t => simpa using run_append t as bs

theorem meets_of_append {ok : σ → α → Prop} :
    ∀ {s : σ} {as bs : List α}, Meets step ok s (as ++ bs) → Meets step ok s as
  | _, [], _, _ => trivial
  | _, _ :: _, _, h => ⟨h.1, fun t ht => meets_of_append (h.2 t ht)⟩

/-- Whether a schedule meets a condition can be computed along its run. -/
instance decidableMeets (ok : σ → α → Prop) [∀ s a, Decidable (ok s a)] :
    ∀ (s : σ) (as : List α), Decidable (Meets step ok s as)
  | _, [] => isTrue trivial
  | s, a :: as =>
    match h : step s a with
    | none => decidable_of_iff (ok s a) (by simp [Meets, h])
    | some t =>
      have := decidableMeets ok t as
      decidable_of_iff (ok s a ∧ Meets step ok t as) (by simp [Meets, h])

/-- An invariant kept by the steps that meet `ok` holds along every run whose
steps all do. -/
theorem run_invariant_of_meets {ok : σ → α → Prop} {I : σ → Prop}
    (hstep : ∀ s a t, I s → ok s a → step s a = some t → I t) :
    ∀ (s : σ) (as : List α) (t : σ), I s → Meets step ok s as → run step s as = some t → I t
  | s, [], t, hs, _, h => by
    simp only [run, Option.some.injEq] at h
    exact h ▸ hs
  | s, a :: as, t, hs, hm, h => by
    obtain ⟨u, hu, ht⟩ := (run_cons step).mp h
    exact run_invariant_of_meets hstep u as t (hstep s a u hs hm.1 hu) (hm.2 u hu) ht

theorem meets_mono {ok ok' : σ → α → Prop} (h : ∀ s a, ok s a → ok' s a) :
    ∀ {s : σ} {as : List α}, Meets step ok s as → Meets step ok' s as
  | _, [], _ => trivial
  | s, a :: _, hm => ⟨h s a hm.1, fun t ht => meets_mono h (hm.2 t ht)⟩

/-- Where the steps of labels of a kind are enabled and keep an invariant of the
labels taken and the state, so are and do the runs. -/
theorem run_exists_of_history {ok : σ → α → Prop} {I : List α → σ → Prop} {Q : α → Prop}
    (hstep : ∀ h s a, I h s → Q a → ok s a → ∃ t, step s a = some t ∧ I (h ++ [a]) t) :
    ∀ (as : List α) {h : List α} {s : σ}, I h s → (∀ a ∈ as, Q a) → Meets step ok s as →
      ∃ t, run step s as = some t ∧ I (h ++ as) t
  | [], h, s, hs, _, _ => ⟨s, rfl, by rwa [List.append_nil]⟩
  | a :: as, h, s, hs, hq, hm => by
    obtain ⟨u, hu, hI⟩ := hstep h s a hs (hq a List.mem_cons_self) hm.1
    obtain ⟨t, ht, hI'⟩ := run_exists_of_history hstep as hI (fun b hb => hq b (List.mem_cons_of_mem _ hb)) (hm.2 u hu)
    rw [List.append_assoc] at hI'
    exact ⟨t, (run_cons step).mpr ⟨u, hu, ht⟩, hI'⟩

/-- The same for an invariant of the state alone. -/
theorem run_exists_of_meets {ok : σ → α → Prop} {I : σ → Prop} {Q : α → Prop}
    (hstep : ∀ s a, I s → Q a → ok s a → ∃ t, step s a = some t ∧ I t) (as : List α) {s : σ} (hs : I s)
    (hq : ∀ a ∈ as, Q a) (hm : Meets step ok s as) : ∃ t, run step s as = some t ∧ I t :=
  run_exists_of_history step (I := fun _ => I) (fun _ => hstep) as (h := []) hs hq hm

/-- Labels of a kind meet a condition that an invariant of such steps gives. -/
theorem meets_of_invariant {ok : σ → α → Prop} {I : σ → Prop} {Q : α → Prop} (hok : ∀ s a, I s → Q a → ok s a)
    (hstep : ∀ s a t, I s → Q a → step s a = some t → I t) :
    ∀ {s : σ} {as : List α}, I s → (∀ a ∈ as, Q a) → Meets step ok s as
  | _, [], _, _ => trivial
  | s, a :: _, hs, hq =>
    have ha := hq a List.mem_cons_self
    ⟨hok s a hs ha, fun t ht =>
      meets_of_invariant hok hstep (hstep s a t hs ha ht) fun b hb => hq b (List.mem_cons_of_mem _ hb)⟩

theorem meets_true : ∀ (s : σ) (as : List α), Meets step (fun _ _ => True) s as
  | _, [] => trivial
  | _, _ :: as => ⟨trivial, fun t _ => meets_true t as⟩

/-- An invariant of the steps holds along every run. -/
theorem run_invariant {I : σ → Prop} (hstep : ∀ s a t, I s → step s a = some t → I t)
    {s t : σ} {as : List α} (hs : I s) (h : run step s as = some t) : I t :=
  run_invariant_of_meets step (fun s a t hs _ h => hstep s a t hs h) s as t hs (meets_true step s as) h

/-- A run of a total step function is a fold. -/
theorem run_some (f : σ → α → σ) : ∀ (s : σ) (as : List α), run (fun s a => some (f s a)) s as = some (as.foldl f s)
  | _, [] => rfl
  | s, a :: as => run_some f (f s a) as

end Runs

end Lib
