import LdkSample.Text

/-!
# Texts that end by themselves

`Delimits f key` says that a text `f x` with anything behind it tells `key x`, and where the text
ends. Such texts can be put together: one after another, a line at a time, with parts that may be
left out, and any number of them before an end that none of them begins with.
-/

namespace LdkSample

variable {α β κ μ χ : Type}

def Delimits (f : α → List χ) (key : α → κ) : Prop :=
  ∀ ⦃x y : α⦄ ⦃r s : List χ⦄, f x ++ r = f y ++ s → key x = key y ∧ r = s

variable {f : α → List χ} {g : β → List χ} {k : α → κ} {l : β → μ}

theorem delimits_const (text : List χ) : Delimits (fun _ : α => text) fun _ => () :=
  fun _ _ _ _ h => ⟨rfl, List.append_cancel_left h⟩

namespace Delimits

/-- A key may tell less. -/
theorem mono {k' : α → μ} (hf : Delimits f k) (h : ∀ x y, k x = k y → k' x = k' y) :
    Delimits f k' := by
  intro x y r s hxy
  obtain ⟨hk, hr⟩ := hf hxy
  exact ⟨h x y hk, hr⟩

theorem comp {γ : Type} (hf : Delimits f k) (φ : γ → α) :
    Delimits (fun z => f (φ z)) fun z => k (φ z) :=
  fun _ _ _ _ h => hf h

theorem append {g : α → List χ} {l : α → μ} (hf : Delimits f k) (hg : Delimits g l) :
    Delimits (fun x => f x ++ g x) fun x => (k x, l x) := by
  intro x y r s h
  rw [List.append_assoc, List.append_assoc] at h
  obtain ⟨hk, h⟩ := hf h
  obtain ⟨hl, hr⟩ := hg h
  exact ⟨Prod.ext hk hl, hr⟩

/-- A part that may be left out, before one that does not look like it. -/
theorem option {γ : Type} {g : γ → List χ} {l : γ → μ} (hf : Delimits f k) (hg : Delimits g l)
    (o : γ → Option α) (looks : List χ → Prop) (hlooks : ∀ x r, looks (f x ++ r))
    (hother : ∀ z r, ¬looks (g z ++ r)) :
    Delimits (fun z => (o z).elim [] f ++ g z) fun z => ((o z).map k, l z) := by
  intro z z' r s h
  rw [List.append_assoc, List.append_assoc] at h
  dsimp only
  cases hz : o z with
  | none =>
    cases hz' : o z' with
    | none =>
      rw [hz, hz'] at h
      obtain ⟨hl, hr⟩ := hg h
      exact ⟨Prod.ext rfl hl, hr⟩
    | some y =>
      rw [hz, hz'] at h
      exact absurd ((show g z ++ r = f y ++ (g z' ++ s) from h) ▸ hlooks y _) (hother z r)
  | some x =>
    cases hz' : o z' with
    | none =>
      rw [hz, hz'] at h
      exact absurd ((show f x ++ (g z ++ r) = g z' ++ s from h) ▸ hlooks x _) (hother z' s)
    | some y =>
      rw [hz, hz'] at h
      obtain ⟨hk, h⟩ := hf h
      obtain ⟨hl, hr⟩ := hg h
      exact ⟨Prod.ext (congrArg some hk) hl, hr⟩

/-- Texts one after another, before an end that does not look like one of them. -/
theorem flatMap (hf : Delimits f k) (looks : List χ → Prop) (hlooks : ∀ x r, looks (f x ++ r))
    {r s : List χ} (hr : ¬looks r) (hs : ¬looks s) :
    ∀ {xs ys : List α}, xs.flatMap f ++ r = ys.flatMap f ++ s → xs.map k = ys.map k ∧ r = s
  | [], [], h => ⟨rfl, h⟩
  | [], y :: ys, h => by
    rw [List.flatMap_cons, List.append_assoc] at h
    exact absurd ((show r = f y ++ (ys.flatMap f ++ s) from h) ▸ hlooks y _) hr
  | x :: xs, [], h => by
    rw [List.flatMap_cons, List.append_assoc] at h
    exact absurd ((show f x ++ (xs.flatMap f ++ r) = s from h) ▸ hlooks x _) hs
  | x :: xs, y :: ys, h => by
    rw [List.flatMap_cons, List.flatMap_cons, List.append_assoc, List.append_assoc] at h
    obtain ⟨hk, h⟩ := hf h
    obtain ⟨hks, hrs⟩ := hf.flatMap looks hlooks hr hs h
    exact ⟨List.cons_eq_cons.mpr ⟨hk, hks⟩, hrs⟩

end Delimits

/-- A line with a value between two fixed texts. -/
theorem delimits_line [DecidableEq χ] {sep : χ} {v : α → List χ} (pre : List χ) {post : List χ}
    (hv : ∀ x, sep ∉ v x) (hpost : sep ∉ post) :
    Delimits (fun x => pre ++ v x ++ post ++ [sep]) v := by
  intro x y r s h
  have hno : ∀ z, sep ∉ v z ++ post := fun z hz => (List.mem_append.mp hz).elim (hv z) hpost
  have hcut : ∀ z t, pre ++ v z ++ post ++ [sep] ++ t = pre ++ (v z ++ post ++ sep :: t) := by
    intro z t
    simp only [List.append_assoc, List.singleton_append]
  rw [hcut, hcut] at h
  have h := congrArg (splitFirst sep) (List.append_cancel_left h)
  rw [splitFirst_append (hno x), splitFirst_append (hno y), Prod.mk.injEq, Option.some.injEq] at h
  exact ⟨List.append_cancel_right h.1, h.2⟩

end LdkSample
