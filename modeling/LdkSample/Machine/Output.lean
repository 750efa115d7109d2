import LdkSample.Machine.Crash

/-!
# Programs that print

A program over a list of messages prints `msgs` when it returns and adds them to whatever was
printed before (`Prints`). `firstOk` tries programs until one succeeds and does not run the others.
-/

namespace LdkSample

namespace Crash

variable {τ α β ε : Type}

def Prints (m : Crash (List τ) α) (a : α) (msgs : List τ) : Prop :=
  ∀ out, m.exec out = some (a, out ++ msgs)

/-- What the program returns where nothing was printed before. -/
def result (m : Crash (List τ) α) : Option α := (m.exec []).map Prod.fst

def printed (m : Crash (List τ) α) : List τ := ((m.exec []).map Prod.snd).getD []

section Rules

variable {m : Crash (List τ) α} {a : α} {msgs : List τ}

theorem Prints.result (h : Prints m a msgs) : m.result = some a := by
  unfold Crash.result
  rw [h []]
  rfl

theorem Prints.printed (h : Prints m a msgs) : m.printed = msgs := by
  unfold Crash.printed
  rw [h []]
  rfl

theorem Prints.pure : Prints (Pure.pure a : Crash (List τ) α) a [] := fun out => by simp

theorem Prints.modify (msg : τ) : Prints (Crash.modify fun out => out ++ [msg]) () [msg] := fun _ => rfl

theorem Prints.bind {f : α → Crash (List τ) β} {b : β} {msgs' : List τ} (hm : Prints m a msgs)
    (hf : Prints (f a) b msgs') : Prints (m >>= f) b (msgs ++ msgs') := by
  intro out
  rw [exec_bind_some (hm out), hf, List.append_assoc]

/-- What follows prints nothing. -/
theorem Prints.bind_quiet {f : α → Crash (List τ) β} (hm : Prints m a msgs)
    (hf : ∃ b, Prints (f a) b []) : ∃ b, Prints (m >>= f) b msgs := by
  obtain ⟨b, hb⟩ := hf
  exact ⟨b, List.append_nil msgs ▸ hm.bind hb⟩

theorem Prints.forEach_modify (l : List τ) :
    Prints (Crash.forEach l fun msg => Crash.modify fun out => out ++ [msg]) () l := by
  intro out
  induction l generalizing out with
  | nil => simp [Crash.forEach]
  | cons msg l ih =>
    refine (exec_bind_some (exec_modify _ out)).trans ?_
    rw [ih, List.append_assoc, List.singleton_append]

end Rules

/-! ## The first program that succeeds -/

def firstOk (last : Crash (List τ) (Except ε α)) :
    List (Crash (List τ) (Except ε α)) → Crash (List τ) (Except ε α)
  | [] => last
  | m :: ms => do
    match ← m with
    | .ok a => pure (.ok a)
    | .error _ => firstOk last ms

/-- The program at `k` succeeds, and those before it fail. -/
def SucceedsAt (ms : List (Crash (List τ) (Except ε α))) (k : Nat) (a : α) : Prop :=
  (∃ m, ms[k]? = some m ∧ m.result = some (.ok a)) ∧
    ∀ j < k, ∀ m, ms[j]? = some m → ∃ err, m.result = some (.error err)

section FirstOk

variable {last : Crash (List τ) (Except ε α)} {ms : List (Crash (List τ) (Except ε α))}
  {m : Crash (List τ) (Except ε α)} {r : Except ε α} {a : α} {err : ε} {msgs msgs' : List τ}

theorem Prints.firstOk_nil (h : Prints last r msgs) : Prints (firstOk last []) r msgs := h

theorem Prints.firstOk_ok (h : Prints m (.ok a) msgs) : Prints (firstOk last (m :: ms)) (.ok a) msgs := by
  have := h.bind (f := fun r => match r with
    | .ok a => Pure.pure (.ok a)
    | .error _ => firstOk last ms) (Prints.pure (a := Except.ok a))
  rwa [List.append_nil] at this

theorem Prints.firstOk_error (h : Prints m (.error err) msgs)
    (hms : Prints (firstOk last ms) r msgs') : Prints (firstOk last (m :: ms)) r (msgs ++ msgs') :=
  h.bind hms

theorem firstOk_of_fail (h : ∀ m ∈ ms, ∃ (err : ε) (msgs : List τ), Prints m (.error err) msgs)
    (hlast : Prints last r msgs) : Prints (firstOk last ms) r (ms.flatMap printed ++ msgs) := by
  induction ms with
  | nil => exact hlast
  | cons m ms ih =>
    rw [List.forall_mem_cons] at h
    obtain ⟨⟨err, msgs', hm⟩, hms⟩ := h
    rw [List.flatMap_cons, hm.printed, List.append_assoc]
    exact hm.firstOk_error (ih hms)

end FirstOk

end Crash

end LdkSample
