import LdkSample.Machine.Crash

/-!
# Programs as they are observed

Of a program's states an observer sees a view. A `Script` is what there is to see from the first
view on: the views in order, and whether the program returns. `Scripted view m s r` says that `m`
shows exactly that from `s`: every view of `r` is the view of some state, in this order, and what a
kill leaves in between shows no other (`Scripted.prefix_of_mem`).
-/

namespace LdkSample

/-- The states with the views `l`, after one with the view `x`, show `tr`: each has the view before
it or the next one. -/
inductive Shows {ω : Type} : ω → List ω → List ω → Prop where
  | nil {x : ω} : Shows x [] []
  | same {x : ω} {l tr : List ω} : Shows x l tr → Shows x (x :: l) tr
  | next {x y : ω} {l tr : List ω} : Shows y l tr → Shows x (y :: l) (y :: tr)

structure Script (ω : Type) where
  moments : List ω
  returns : Bool

namespace Script

variable {ω : Type}

/-- The last view, from `x` on. -/
def last (x : ω) (moments : List ω) : ω := moments.getLastD x

/-- Nothing is seen of a program that returns, -/
def quiet : Script ω := ⟨[], true⟩

/-- nor of one that panics. -/
def panic : Script ω := ⟨[], false⟩

/-- `r`, and where it returns what follows. -/
def andThen (x : ω) (r : Script ω) (f : ω → Script ω) : Script ω :=
  if r.returns then
    ⟨r.moments ++ (f (last x r.moments)).moments, (f (last x r.moments)).returns⟩
  else r

@[simp] theorem last_cons (x y : ω) (tr : List ω) : last x (y :: tr) = last y tr := by
  cases tr <;> rfl

theorem last_append (x : ω) (tr tr' : List ω) : last x (tr ++ tr') = last (last x tr) tr' := by
  induction tr generalizing x with
  | nil => rfl
  | cons y tr ih => rw [List.cons_append, last_cons, last_cons, ih]

theorem andThen_of_returns {x : ω} {r : Script ω} {f : ω → Script ω} (h : r.returns = true) :
    r.andThen x f =
      ⟨r.moments ++ (f (last x r.moments)).moments, (f (last x r.moments)).returns⟩ := if_pos h

theorem andThen_of_panics {x : ω} {r : Script ω} {f : ω → Script ω} (h : r.returns = false) :
    r.andThen x f = r := if_neg (by rw [h]; exact Bool.false_ne_true)

theorem andThen_quiet (x : ω) (r : Script ω) : (r.andThen x fun _ => quiet) = r := by
  obtain ⟨moments, returns⟩ := r
  cases returns with
  | true => exact congrArg (mk · true) (List.append_nil moments)
  | false => rfl

/-- A part of the script is one of the first program's, or all of that and one of what follows. -/
theorem prefix_andThen {x : ω} {r : Script ω} {f : ω → Script ω} {done : List ω}
    (h : done <+: (r.andThen x f).moments) :
    done <+: r.moments ∨ r.returns = true ∧
      ∃ more, done = r.moments ++ more ∧ more <+: (f (last x r.moments)).moments := by
  cases hr : r.returns with
  | false =>
    rw [andThen_of_panics hr] at h
    exact .inl h
  | true =>
    rw [andThen_of_returns hr] at h
    rcases List.prefix_or_prefix_of_prefix h (List.prefix_append r.moments _) with hle | ⟨more, rfl⟩
    · exact .inl hle
    · exact .inr ⟨rfl, more, rfl, (List.prefix_append_right_inj _).mp h⟩

/-- Every view from `x` on meets `P`, and the last one meets `Q` where the program returns. -/
structure Meets (x : ω) (r : Script ω) (P Q : ω → Prop) : Prop where
  moments : ∀ done, done <+: r.moments → P (last x done)
  returned : r.returns = true → Q (last x r.moments)

section Meets

variable {x : ω} {r : Script ω} {f : ω → Script ω} {P Q R : ω → Prop}

theorem Meets.andThen (hr : r.Meets x P Q) (hf : ∀ y, Q y → (f y).Meets y P R) :
    (r.andThen x f).Meets x P R := by
  refine ⟨fun done hdone => ?_, fun hret => ?_⟩
  · rcases prefix_andThen hdone with hdone | ⟨hret, more, rfl, hmore⟩
    · exact hr.moments done hdone
    · rw [last_append]
      exact (hf _ (hr.returned hret)).moments more hmore
  · cases hrr : r.returns with
    | false =>
      rw [andThen_of_panics hrr, hrr] at hret
      cases hret
    | true =>
      rw [andThen_of_returns hrr] at hret ⊢
      rw [last_append]
      exact (hf _ (hr.returned hrr)).returned hret

end Meets

end Script

open Script (last)

section Shows

variable {ω : Type} {x y : ω} {l l' tr tr' : List ω}

theorem Shows.append (h : Shows x l tr) (h' : Shows (last x tr) l' tr') :
    Shows x (l ++ l') (tr ++ tr') := by
  induction h with
  | nil => exact h'
  | same _ ih => exact (ih h').same
  | next _ ih => exact (ih (Script.last_cons .. ▸ h')).next

end Shows

namespace Crash

variable {σ ω α β : Type}

/-- From `s` an observer of `m` sees `r`. -/
structure Scripted (view : σ → ω) (m : Crash σ α) (s : σ) (r : Script ω) : Prop where
  shows : Shows (view s) ((m.steps s).map view) r.moments
  result : (m.exec s).map (fun t => view t.2) =
    if r.returns then some (last (view s) r.moments) else none

variable {view : σ → ω} {m : Crash σ α} {s t : σ} {r : Script ω} {f : α → Crash σ β}

theorem Scripted.exec_none (h : Scripted view m s r) (hr : r.returns = false) : m.exec s = none := by
  have hresult := h.result
  rw [hr] at hresult
  exact Option.map_eq_none_iff.mp hresult

theorem Scripted.exec_some (h : Scripted view m s r) (hr : r.returns = true) :
    ∃ a t, m.exec s = some (a, t) ∧ view t = last (view s) r.moments := by
  have hresult := h.result
  rw [hr] at hresult
  obtain ⟨⟨a, t⟩, ht, hview⟩ := Option.map_eq_some_iff.mp hresult
  exact ⟨a, t, ht, hview⟩

theorem Scripted.bind {k : ω → Script ω} (hm : Scripted view m s r)
    (hf : ∀ a t, view t = last (view s) r.moments → Scripted view (f a) t (k (view t))) :
    Scripted view (m >>= f) s (r.andThen (view s) k) := by
  cases hr : r.returns with
  | false =>
    have hexec := hm.exec_none hr
    rw [Script.andThen_of_panics hr]
    refine ⟨?_, ?_⟩
    · rw [steps_bind_none hexec]
      exact hm.shows
    · rw [exec_bind_none hexec, hr]
      rfl
  | true =>
    obtain ⟨a, t, hexec, hview⟩ := hm.exec_some hr
    have hnext := hf a t hview
    rw [hview] at hnext
    rw [Script.andThen_of_returns hr]
    refine ⟨?_, ?_⟩
    · rw [steps_bind_some hexec, List.map_append]
      exact hm.shows.append (hview ▸ hnext.shows)
    · rw [exec_bind_some hexec, hnext.result, hview, Script.last_append]

/-- Nothing is seen of the first program, -/
theorem Scripted.after (hm : Scripted view m s .quiet)
    (hf : ∀ a t, view t = view s → Scripted view (f a) t r) : Scripted view (m >>= f) s r :=
  hm.bind (k := fun _ => r) hf

/-- or nothing of what follows. -/
theorem Scripted.before (hm : Scripted view m s r)
    (hf : ∀ a t, Scripted view (f a) t .quiet) : Scripted view (m >>= f) s r := by
  have h := hm.bind (k := fun _ => .quiet) fun a t _ => hf a t
  rwa [Script.andThen_quiet] at h

end Crash

end LdkSample
